/-
This file proves of the single steps on a shared CBHT that they keep its blocks
where the directory leads, and that the count of each bucket covers the blocks
whose insertion has counted them.
-/

import Hvfs.CbhtThreads

namespace Hvfs

/-! ### The table under each step -/

section Tables

variable {hvfsHash : U64 → U64 → U64} {t : Cbht} {i b : Nat}

/-- A block that is not attached may get another header. -/
theorem CbhtHung.setItb (hung : CbhtHung hvfsHash t) {header : Itbh}
    (free : (t.itb i).be = none) (stays : header.be = none) :
    CbhtHung hvfsHash (t.setItb i header) := by
  have be : ∀ j, ((t.setItb i header).itb j).be = (t.itb j).be := by
    intro j
    simp only [Cbht.setItb, Function.update_apply]
    split_ifs with same
    · rw [same, free, stays]
    · rfl
  have kept : ∀ j, (t.itb j).be ≠ none → (t.setItb i header).itb j = t.itb j := by
    intro j attached
    refine Function.update_of_ne ?_ _ _
    rintro rfl
    exact attached free
  refine ⟨fun j b o => ?_, fun j b o place => ?_, hung.nodup,
    fun j k first second samePuuid sameItbid => ?_⟩
  · rw [be]
    exact hung.placed j b o
  · rw [be] at place
    have attached : (t.itb j).be ≠ none := by
      rw [place]
      exact Option.some_ne_none _
    rw [kept j attached]
    exact hung.hashed j b o place
  · rw [be] at first second
    rw [kept j first, kept k second] at samePuuid sameItbid
    exact hung.keys j k first second samePuuid sameItbid

/-- The other header neither puts the block in the table nor another one under its key. -/
theorem setItb_attached_key (t : Cbht) {i : Nat} {header : Itbh} (free : (t.itb i).be = none)
    (stays : header.be = none) (j : Nat) (key : U64 × U64) :
    (t.Attached j ∧ t.key j = key) ↔
      ((t.setItb i header).Attached j ∧ (t.setItb i header).key j = key) := by
  unfold Cbht.Attached Cbht.key
  rcases eq_or_ne j i with rfl | different
  · simp only [Cbht.setItb, Function.update_self, free, stays, ne_eq, not_true_eq_false, false_and]
  · simp only [Cbht.setItb, Function.update_of_ne different]

theorem CbhtDirected.setItb (dir : CbhtDirected t) (i : Nat) (header : Itbh) :
    CbhtDirected (t.setItb i header) :=
  dir.congr _ (fun _ => rfl) fun _ => rfl

theorem count_other (t : Cbht) (b : Nat) {c : Nat} (different : c ≠ b) :
    (t.count b).bucket c = t.bucket c :=
  Function.update_of_ne different _ _

theorem count_fields (t : Cbht) (b c : Nat) :
    ((t.count b).bucket c).depth = (t.bucket c).depth ∧
      ((t.count b).bucket c).id = (t.bucket c).id ∧
      ((t.count b).bucket c).content = (t.bucket c).content := by
  rcases eq_or_ne c b with rfl | different
  · simp only [Cbht.count, Function.update_self, and_self]
  · rw [count_other t b different]
    exact ⟨rfl, rfl, rfl⟩

theorem CbhtDirected.count (dir : CbhtDirected t) (b : Nat) : CbhtDirected (t.count b) :=
  dir.congr _ (fun c => (count_fields t b c).1) fun c => (count_fields t b c).2.1

theorem CbhtHung.count (hung : CbhtHung hvfsHash t) (b : Nat) :
    CbhtHung hvfsHash (t.count b) := by
  refine ⟨fun i c o => ?_, fun i c o be => ?_, fun c present o => ?_, hung.keys⟩
  · rw [(count_fields t b c).2.2]
    exact hung.placed i c o
  · rw [(count_fields t b c).1, (count_fields t b c).2.1]
    exact hung.hashed i c o be
  · rw [(count_fields t b c).2.2]
    exact hung.nodup c present o

/-- A level of a split with its update of the directory. -/
theorem CbhtHung.level (hung : CbhtHung hvfsHash t) (dir : CbhtDirected t)
    (present : b < t.buckets) (shallow : (t.bucket b).depth + 1 < 31) :
    ∃ final, cbhtUpdateDir (splitLevel t b).2 t.buckets = .ok (0, final) ∧
      CbhtDirected final ∧ CbhtHung hvfsHash final ∧ final.bucketDepth = t.bucketDepth ∧
      final.buckets = t.buckets + 1 ∧ final.bucket = (splitLevel t b).2.bucket ∧
      final.itb = (splitLevel t b).2.itb := by
  obtain ⟨_, leveled⟩ := splitLevel_leveled t present
  have hungAfter := leveled.hung hung present (dir.id_lt present).1
  obtain ⟨final, updated, dirAfter, depth, buckets, bucket, itb⟩ :=
    leveled.directed dir present shallow
  refine ⟨final, updated, dirAfter, ?_, depth.trans leveled.bucketDepth,
    buckets.trans leveled.buckets, bucket, itb⟩
  obtain ⟨_, _, _, _, _, _⟩ := final
  cases depth
  cases buckets
  cases bucket
  cases itb
  exact ⟨hungAfter.placed, hungAfter.hashed, hungAfter.nodup, hungAfter.keys⟩

end Tables

/-! ### Counted blocks -/

/-- The blocks of a bucket that have been counted. -/
def Cbht.counted (t : Cbht) (pending : Nat → Prop) [DecidablePred pending] (b : Nat) : Nat :=
  ((List.range (2 ^ t.bucketDepth)).map fun o =>
    ((t.bucket b).content o).countP fun i => !decide (pending i)).sum

/-- The count of each bucket covers them; deletions do not lower it. -/
def Covered (t : Cbht) (pending : Nat → Prop) [DecidablePred pending] : Prop :=
  ∀ b < t.buckets, (t.counted pending b : Int) ≤ (t.bucket b).active

section Counted

variable {hvfsHash : U64 → U64 → U64} {t after : Cbht} {pending later : Nat → Prop}
  [DecidablePred pending] [DecidablePred later] {b : Nat}

/-- A bucket whose chains do not get more counted blocks. -/
theorem counted_le (depth : after.bucketDepth = t.bucketDepth)
    (fewer : ∀ o, ((after.bucket b).content o).countP (fun i => !decide (later i)) ≤
      ((t.bucket b).content o).countP fun i => !decide (pending i)) :
    after.counted later b ≤ t.counted pending b := by
  unfold Cbht.counted
  rw [depth]
  exact List.sum_le_sum fun o _ => fewer o

/-- Without pending blocks every block of a bucket is counted. -/
theorem counted_eq_load (settled : ∀ o < 2 ^ t.bucketDepth, ∀ i ∈ (t.bucket b).content o,
    ¬pending i) : t.counted pending b = t.load b := by
  unfold Cbht.counted Cbht.load
  refine congrArg List.sum (List.map_congr_left fun o low => ?_)
  refine List.countP_eq_length.mpr fun i member => ?_
  rw [decide_eq_false (settled o (List.mem_range.mp low) i member)]
  rfl

theorem counted_le_load : t.counted pending b ≤ t.load b :=
  List.sum_le_sum fun _ _ => List.countP_le_length

/-- In a bucket that looks empty every block is pending. -/
theorem Covered.uncounted (covered : Covered t pending) (present : b < t.buckets)
    (empty : (t.bucket b).active = 0) {o i : Nat} (low : o < 2 ^ t.bucketDepth)
    (member : i ∈ (t.bucket b).content o) : pending i := by
  have none := covered b present
  rw [empty] at none
  have zero : t.counted pending b = 0 := by omega
  unfold Cbht.counted at zero
  rw [List.sum_eq_zero_iff] at zero
  have chain := zero _ (List.mem_map.mpr ⟨o, List.mem_range.mpr low, rfl⟩)
  rw [List.countP_eq_zero] at chain
  simpa using chain i member

theorem Covered.congr (covered : Covered t pending) (same : ∀ i, later i ↔ pending i) :
    Covered t later := by
  intro b present
  have fewer : t.counted later b ≤ t.counted pending b :=
    counted_le rfl fun o => le_of_eq (List.countP_congr fun i _ => by simp only [same])
  exact le_trans (Int.ofNat_le.mpr fewer) (covered b present)

theorem Covered.setItb (covered : Covered t pending) (i : Nat) (header : Itbh) :
    Covered (t.setItb i header) pending :=
  covered

/-- A block that is hung is pending. -/
theorem Covered.hang (covered : Covered t pending) {i o : Nat}
    (pend : ∀ j, later j ↔ j = i ∨ pending j) :
    Covered (t.hang i b o (t.bucket b).active) later := by
  intro c present
  have active : ((t.hang i b o (t.bucket b).active).bucket c).active = (t.bucket c).active := by
    rcases eq_or_ne c b with rfl | different
    · rw [hang_here]
    · rw [hang_other _ _ _ _ _ _ different]
  rw [active]
  have others : ∀ l : List Nat, l.countP (fun j => !decide (later j)) ≤
      l.countP fun j => !decide (pending j) := by
    intro l
    refine List.countP_mono_left fun j _ counted => ?_
    simp only [pend, Bool.not_eq_true', decide_eq_false_iff_not, not_or] at counted ⊢
    exact counted.2
  have fewer : (t.hang i b o (t.bucket b).active).counted later c ≤ t.counted pending c := by
    refine counted_le rfl fun k => ?_
    rcases eq_or_ne c b with rfl | different
    · rw [hang_here]
      simp only [Function.update_apply]
      split_ifs with here
      · subst here
        rw [List.countP_cons_of_neg]
        · exact others _
        · simp only [pend, true_or, decide_true, Bool.not_true, Bool.false_eq_true,
            not_false_eq_true]
      · exact others _
    · rw [hang_other _ _ _ _ _ _ different]
      exact others _
  exact le_trans (Int.ofNat_le.mpr fewer) (covered c present)

/-- A pending block that is counted. -/
theorem Covered.count (covered : Covered t pending) (hung : CbhtHung hvfsHash t) {i o : Nat}
    (be : (t.itb i).be = some (b, o)) (pend : ∀ j, later j ↔ j ≠ i ∧ pending j) :
    Covered (t.count b) later := by
  obtain ⟨present, low, -⟩ := (hung.placed i b o).mp be
  intro c presentOther
  change c < t.buckets at presentOther
  have content := (count_fields t b c).2.2
  -- a chain without the block counts as before
  have others : ∀ l : List Nat, i ∉ l → l.countP (fun j => !decide (later j)) =
      l.countP fun j => !decide (pending j) := by
    intro l absent
    refine List.countP_congr fun j member => ?_
    have notHere : j ≠ i := by
      rintro rfl
      exact absent member
    simp only [pend, notHere, ne_eq, not_false_eq_true, true_and]
  have away : ∀ k < 2 ^ t.bucketDepth, (c, k) ≠ (b, o) → i ∉ (t.bucket c).content k := by
    intro k lowOther apart member
    have there := (hung.placed i c k).mpr ⟨presentOther, lowOther, member⟩
    rw [be] at there
    exact apart (Option.some.inj there).symm
  rcases eq_or_ne c b with rfl | different
  · -- the block is on one chain, once
    have once : ∀ k < 2 ^ t.bucketDepth,
        ((t.bucket c).content k).countP (fun j => !decide (later j)) ≤
          (((t.bucket c).content k).countP fun j => !decide (pending j)) +
            if k = o then 1 else 0 := by
      intro k lowOther
      by_cases here : i ∈ (t.bucket c).content k
      · have place : k = o := by
          by_contra apart
          exact away k lowOther (fun same => apart (congrArg Prod.snd same)) here
        have split := List.perm_cons_erase here
        have rest := others _ (hung.nodup c present k).not_mem_erase
        rw [split.countP_eq, split.countP_eq, List.countP_cons, List.countP_cons, rest,
          if_pos place]
        split_ifs <;> omega
      · rw [others _ here]
        exact Nat.le_add_right _ _
    have more : (t.count c).counted later c ≤ t.counted pending c + 1 := by
      have one : ((List.range (2 ^ t.bucketDepth)).map fun k => if k = o then 1 else 0).sum ≤
          ((List.range (2 ^ t.bucketDepth)).map fun _ => 0).sum + 1 :=
        (sum_range_le (k := o) (by rw [if_pos rfl]) (fun k apart => if_neg apart) _).1
      rw [List.map_const', List.sum_replicate, Nat.nsmul_eq_mul, Nat.mul_zero, Nat.zero_add] at one
      unfold Cbht.counted
      rw [content]
      refine le_trans (List.sum_le_sum fun k lowOther => once k (List.mem_range.mp lowOther)) ?_
      rw [List.sum_map_add]
      exact Nat.add_le_add_left one _
    have active : ((t.count c).bucket c).active = (t.bucket c).active + 1 := by
      simp only [Cbht.count, Function.update_self]
    have before := covered c present
    rw [active]
    omega
  · have same : (t.count b).counted later c = t.counted pending c := by
      unfold Cbht.counted
      refine congrArg List.sum (List.map_congr_left fun k lowOther => ?_)
      rw [content]
      exact others _ (away k (List.mem_range.mp lowOther) fun same =>
        different (congrArg Prod.fst same))
    rw [same, count_other t b different]
    exact covered c presentOther

/-- A block that is taken off its chain. -/
theorem Covered.detach (covered : Covered t pending) (i b o : Nat) :
    Covered (t.detach i b o) pending := by
  intro c present
  rw [(detach_fields t i b o c).2.2.2]
  have fewer : (t.detach i b o).counted pending c ≤ t.counted pending c := by
    refine counted_le rfl fun k => ?_
    rcases eq_or_ne c b with rfl | different
    · rw [detach_here]
      simp only [Function.update_apply]
      split_ifs with here
      · rw [here]
        exact List.erase_sublist.countP_le
      · exact le_refl _
    · rw [detach_other t i b o c different]
  exact le_trans (Int.ofNat_le.mpr fewer) (covered c present)

/-- A split of a bucket without pending blocks. -/
theorem Covered.level (covered : Covered t pending) {final : Cbht} (present : b < t.buckets)
    (settled : ∀ o < 2 ^ t.bucketDepth, ∀ i ∈ (t.bucket b).content o, ¬pending i)
    (bucketDepth : final.bucketDepth = t.bucketDepth) (buckets : final.buckets = t.buckets + 1)
    (bucket : final.bucket = (splitLevel t b).2.bucket) : Covered final pending := by
  obtain ⟨_, leveled⟩ := splitLevel_leveled t present
  obtain ⟨moved, loadNew, loadOld, activeOld, activeNew, loadOther⟩ := leveled.load
  have loads : ∀ c, final.load c = (splitLevel t b).2.load c := fun c => by
    unfold Cbht.load
    rw [bucket, bucketDepth, leveled.bucketDepth]
  have most : ∀ c, final.counted pending c ≤ (splitLevel t b).2.load c :=
    fun c => loads c ▸ counted_le_load
  have whole := covered b present
  rw [counted_eq_load settled] at whole
  intro c presentOther
  have least := most c
  rw [buckets] at presentOther
  rw [bucket]
  rcases eq_or_ne c t.buckets with rfl | notNew
  · rw [activeNew]
    omega
  · rcases eq_or_ne c b with rfl | notOld
    · rw [activeOld]
      omega
    · have same : final.counted pending c = t.counted pending c := by
        unfold Cbht.counted
        rw [bucket, bucketDepth, leveled.other c notOld notNew]
      rw [same, leveled.other c notOld notNew]
      exact covered c (by omega)

end Counted

end Hvfs
