/-
This file proves that the CBHT is a finite map from keys to blocks: for every
sequence of insertions and deletions, a search finds the block that was inserted
under the key and not deleted since, and a second insertion is refused.
-/

import Hvfs.CbhtSplit
import Hvfs.Library.Transition
import Mathlib.Algebra.Order.BigOperators.Group.List

namespace Hvfs

open Transition

/-! ### Finding a block -/

/-- The key of a block. -/
def Cbht.key (t : Cbht) (i : Nat) : U64 × U64 := ((t.itb i).puuid, (t.itb i).itbid)

/-- The block is in the table. -/
def Cbht.Attached (t : Cbht) (i : Nat) : Prop := (t.itb i).be ≠ none

section Find

variable {hvfsHash : U64 → U64 → U64} {t : Cbht} {i b : Nat} {puuid itbid : U64}

theorem keyIs_iff (t : Cbht) (i : Nat) :
    t.keyIs puuid itbid i = true ↔ t.key i = (puuid, itbid) := by
  unfold Cbht.keyIs Cbht.key
  rw [Bool.and_eq_true, beq_iff_eq, beq_iff_eq, Prod.mk.injEq]

theorem low_eq (t : Cbht) (hash : U64) :
    hash.toNat &&& ((1 <<< t.bucketDepth) - 1) = t.low hash := by
  rw [Nat.one_shiftLeft, Nat.and_two_pow_sub_one_eq_mod]
  rfl

theorem low_lt (t : Cbht) (hash : U64) : t.low hash < 2 ^ t.bucketDepth :=
  Nat.mod_lt _ (Nat.two_pow_pos _)

/-- Where an attached block is. -/
theorem CbhtHung.place (hung : CbhtHung hvfsHash t) (dir : CbhtDirected t)
    (attached : t.Attached i) :
    ∃ b, mdsCbhtSearchDir t (t.itb i).hash = some b ∧
      (t.itb i).hash = hvfsHash (t.itb i).puuid (t.itb i).itbid ∧
      (t.itb i).be = some (b, t.low (t.itb i).hash) ∧
      i ∈ (t.bucket b).content (t.low (t.itb i).hash) := by
  obtain ⟨⟨b, o⟩, be⟩ := Option.ne_none_iff_exists'.mp attached
  obtain ⟨hashed, rfl, bits⟩ := hung.hashed i b o be
  obtain ⟨present, _, member⟩ := (hung.placed i b _).mp be
  exact ⟨b, (dir.searchDir_iff present _).mpr bits, hashed, be, member⟩

theorem CbhtGood.place (good : CbhtGood hvfsHash t) (attached : t.Attached i) :
    ∃ b, mdsCbhtSearchDir t (t.itb i).hash = some b ∧
      (t.itb i).hash = hvfsHash (t.itb i).puuid (t.itb i).itbid ∧
      (t.itb i).be = some (b, t.low (t.itb i).hash) ∧
      i ∈ (t.bucket b).content (t.low (t.itb i).hash) :=
  good.blocks.hung.place good.dir attached

/-- The chain of a hash has exactly the block of the key, if one is attached. -/
theorem CbhtHung.find_iff (hung : CbhtHung hvfsHash t) (dir : CbhtDirected t)
    (found : mdsCbhtSearchDir t (hvfsHash puuid itbid) = some b) :
    ((t.bucket b).content (t.low (hvfsHash puuid itbid))).find? (t.keyIs puuid itbid) = some i ↔
      t.Attached i ∧ t.key i = (puuid, itbid) := by
  have present := dir.searchDir_lt found
  have low := low_lt t (hvfsHash puuid itbid)
  -- a hit is attached and has the key
  have sound : ∀ j, ((t.bucket b).content (t.low (hvfsHash puuid itbid))).find?
      (t.keyIs puuid itbid) = some j → t.Attached j ∧ t.key j = (puuid, itbid) := by
    intro j hit
    refine ⟨?_, (keyIs_iff t j).mp (List.find?_some hit)⟩
    unfold Cbht.Attached
    rw [(hung.placed j b _).mpr ⟨present, low, List.mem_of_find?_eq_some hit⟩]
    exact Option.some_ne_none _
  refine ⟨sound i, fun ⟨attached, key⟩ => ?_⟩
  obtain ⟨place, search, hashed, _, member⟩ := hung.place dir attached
  obtain ⟨samePuuid, sameItbid⟩ := Prod.mk.inj key
  rw [hashed, samePuuid, sameItbid] at search member
  cases found.symm.trans search
  rcases hit : ((t.bucket b).content (t.low (hvfsHash puuid itbid))).find? (t.keyIs puuid itbid)
    with _ | j
  · exact absurd ((keyIs_iff t i).mpr key) (List.find?_eq_none.mp hit i member)
  · obtain ⟨attachedOther, keyOther⟩ := sound j hit
    obtain ⟨otherPuuid, otherItbid⟩ := Prod.mk.inj keyOther
    rw [hung.keys j i attachedOther attached (otherPuuid.trans samePuuid.symm)
      (otherItbid.trans sameItbid.symm)]

theorem CbhtGood.find_iff (good : CbhtGood hvfsHash t)
    (found : mdsCbhtSearchDir t (hvfsHash puuid itbid) = some b) :
    ((t.bucket b).content (t.low (hvfsHash puuid itbid))).find? (t.keyIs puuid itbid) = some i ↔
      t.Attached i ∧ t.key i = (puuid, itbid) :=
  good.blocks.hung.find_iff good.dir found

/-- A bucket with a block does not look empty. -/
theorem CbhtGood.active_ne_zero (good : CbhtGood hvfsHash t) (present : b < t.buckets) {o : Nat}
    (low : o < 2 ^ t.bucketDepth) (member : i ∈ (t.bucket b).content o) :
    (t.bucket b).active ≠ 0 := by
  have counted := good.blocks.counted b present
  have some : 0 < ((t.bucket b).content o).length := List.length_pos_of_mem member
  have least : ((t.bucket b).content o).length ≤ t.load b :=
    List.single_le_sum (fun _ _ => Nat.zero_le _) _
      (List.mem_map.mpr ⟨o, List.mem_range.mpr low, rfl⟩)
  omega

/-- The lookup of a search. -/
theorem CbhtGood.mdsCbhtFind_iff (good : CbhtGood hvfsHash t) :
    mdsCbhtFind hvfsHash t puuid itbid = some i ↔ t.Attached i ∧ t.key i = (puuid, itbid) := by
  unfold mdsCbhtFind
  have search := good.dir.searchDir (hvfsHash puuid itbid)
  generalize t.slot _ = b at search
  have present := good.dir.searchDir_lt search
  simp only [search, low_eq]
  by_cases empty : (t.bucket b).active = 0
  · rw [if_pos empty]
    refine ⟨fun absurdity => (by cases absurdity), fun attached => ?_⟩
    have hit := (good.find_iff search).mpr attached
    exact absurd empty (good.active_ne_zero present (low_lt t _) (List.mem_of_find?_eq_some hit))
  · rw [if_neg empty]
    exact good.find_iff search

end Find

/-! ### Attaching and detaching -/

section Change

variable {hvfsHash : U64 → U64 → U64} {t : Cbht} {i b : Nat}

/-- The directory does not depend on the blocks. -/
theorem CbhtDirected.congr (dir : CbhtDirected t) {bucket : Nat → Bucket} (itb : Nat → Itbh)
    (depth : ∀ b, (bucket b).depth = (t.bucket b).depth)
    (id : ∀ b, (bucket b).id = (t.bucket b).id) : CbhtDirected { t with bucket, itb } :=
  ⟨dir.layout, dir.entry, dir.allocated,
    dir.directed.congr (fun _ _ => rfl) (fun _ _ => depth _) fun _ _ => id _, dir.bounded⟩

/-- A change of one chain changes the load by what it changes there. -/
theorem sum_range_le {f g : Nat → Nat} {k extra : Nat} (here : f k ≤ g k + extra)
    (other : ∀ o, o ≠ k → f o = g o) (n : Nat) :
    ((List.range n).map f).sum ≤ ((List.range n).map g).sum + extra ∧
      (n ≤ k → ((List.range n).map f).sum = ((List.range n).map g).sum) := by
  induction n with
  | zero => exact ⟨Nat.zero_le _, fun _ => rfl⟩
  | succ n inductionHypothesis =>
    rw [List.range_succ, List.map_append, List.sum_append, List.map_append, List.sum_append]
    simp only [List.map_cons, List.map_nil, List.sum_cons, List.sum_nil, Nat.add_zero]
    obtain ⟨most, before⟩ := inductionHypothesis
    rcases eq_or_ne n k with rfl | different
    · refine ⟨?_, fun absurdity => absurd absurdity (by omega)⟩
      rw [before (le_refl _)]
      omega
    · rw [other n different]
      exact ⟨by omega, fun low => by rw [before (by omega)]⟩

theorem key_update_be (t : Cbht) (i j : Nat) (be : Option (Nat × Nat)) :
    (Function.update t.itb i { t.itb i with be } j).puuid = (t.itb j).puuid ∧
      (Function.update t.itb i { t.itb i with be } j).itbid = (t.itb j).itbid ∧
      (Function.update t.itb i { t.itb i with be } j).hash = (t.itb j).hash := by
  rw [Function.update_apply]
  split_ifs with same
  · rw [same]
    exact ⟨rfl, rfl, rfl⟩
  · exact ⟨rfl, rfl, rfl⟩

/-- The table with the block `i` at the head of a chain, and a count for its bucket. -/
def Cbht.hang (t : Cbht) (i b o : Nat) (active : Int) : Cbht :=
  { t with
    bucket := Function.update t.bucket b
      { t.bucket b with
        active := active
        content := Function.update (t.bucket b).content o (i :: (t.bucket b).content o) }
    itb := Function.update t.itb i { t.itb i with be := some (b, o) } }

section Hang

variable (t : Cbht) (i b o : Nat) (active : Int)

theorem hang_other (c : Nat) (different : c ≠ b) : (t.hang i b o active).bucket c = t.bucket c :=
  Function.update_of_ne different _ _

theorem hang_here : (t.hang i b o active).bucket b =
    { t.bucket b with
      active := active
      content := Function.update (t.bucket b).content o (i :: (t.bucket b).content o) } :=
  Function.update_self _ _ _

theorem hang_fields (c : Nat) :
    ((t.hang i b o active).bucket c).depth = (t.bucket c).depth ∧
      ((t.hang i b o active).bucket c).id = (t.bucket c).id ∧
      ((t.hang i b o active).bucket c).adepth = (t.bucket c).adepth := by
  rcases eq_or_ne c b with rfl | different
  · rw [hang_here]
    exact ⟨rfl, rfl, rfl⟩
  · rw [hang_other t i b o active c different]
    exact ⟨rfl, rfl, rfl⟩

end Hang

theorem CbhtDirected.hang (dir : CbhtDirected t) (i b o : Nat) (active : Int) :
    CbhtDirected (t.hang i b o active) :=
  dir.congr _ (fun c => (hang_fields t i b o active c).1)
    fun c => (hang_fields t i b o active c).2.1

/-- Hanging a block under a key that is not in the table. -/
theorem CbhtHung.hang (hung : CbhtHung hvfsHash t) (dir : CbhtDirected t)
    (search : mdsCbhtSearchDir t (t.itb i).hash = some b)
    (hashed : (t.itb i).hash = hvfsHash (t.itb i).puuid (t.itb i).itbid)
    (absent : ∀ j, t.Attached j → t.key j ≠ t.key i) (active : Int) :
    CbhtHung hvfsHash (t.hang i b (t.low (t.itb i).hash) active) := by
  have present := dir.searchDir_lt search
  have low := low_lt t (t.itb i).hash
  have free : (t.itb i).be = none := by
    by_contra attached
    exact absent i attached rfl
  have outside : ∀ b < t.buckets, ∀ o < 2 ^ t.bucketDepth, i ∉ (t.bucket b).content o := by
    intro b present o low member
    have be := (hung.placed i b o).mpr ⟨present, low, member⟩
    rw [free] at be
    cases be
  have other := hang_other t i b (t.low (t.itb i).hash) active
  have here := hang_here t i b (t.low (t.itb i).hash) active
  have depths := hang_fields t i b (t.low (t.itb i).hash) active
  have content : ∀ j c o, j ∈ ((t.hang i b (t.low (t.itb i).hash) active).bucket c).content o ↔
      j ∈ (t.bucket c).content o ∨ (j = i ∧ c = b ∧ o = t.low (t.itb i).hash) := by
    intro j c o
    rcases eq_or_ne c b with rfl | different
    · rw [here]
      simp only [Function.update_apply]
      split_ifs with same
      · rw [List.mem_cons, same, or_comm]
        simp
      · simp [same]
    · rw [other c different]
      simp [different]
  refine ⟨?_, ?_, ?_, ?_⟩
  · intro j c o
    rw [content]
    change (Function.update t.itb i { t.itb i with be := some (b, t.low (t.itb i).hash) } j).be =
      some (c, o) ↔ c < t.buckets ∧ o < 2 ^ t.bucketDepth ∧ _
    rcases eq_or_ne j i with rfl | different
    · rw [Function.update_self]
      constructor
      · intro be
        cases be
        exact ⟨present, low, Or.inr ⟨rfl, rfl, rfl⟩⟩
      · rintro ⟨presentOther, lowOther, member | ⟨_, rfl, rfl⟩⟩
        · exact absurd member (outside c presentOther o lowOther)
        · rfl
    · rw [Function.update_of_ne different]
      simp only [different, false_and, or_false]
      exact hung.placed j c o
  · intro j c o be
    obtain ⟨puuid, itbid, hash⟩ := key_update_be t i j (some (b, t.low (t.itb i).hash))
    change (Function.update t.itb i { t.itb i with be := some (b, t.low (t.itb i).hash) } j).be =
      some (c, o) at be
    change (Function.update t.itb i _ j).hash = hvfsHash (Function.update t.itb i _ j).puuid
      (Function.update t.itb i _ j).itbid ∧ o = t.low (Function.update t.itb i _ j).hash ∧
      t.high (Function.update t.itb i _ j).hash % _ = _
    rw [puuid, itbid, hash, (depths c).1, (depths c).2.1]
    rcases eq_or_ne j i with rfl | different
    · rw [Function.update_self] at be
      cases be
      exact ⟨hashed, rfl, (dir.searchDir_iff present _).mp search⟩
    · rw [Function.update_of_ne different] at be
      exact hung.hashed j c o be
  · intro c presentOther o
    rcases eq_or_ne c b with rfl | different
    · rw [here]
      simp only [Function.update_apply]
      split_ifs with same
      · exact List.nodup_cons.mpr ⟨outside c present _ low, hung.nodup c present _⟩
      · exact hung.nodup c present o
    · rw [other c different]
      exact hung.nodup c presentOther o
  · intro j k first second samePuuid sameItbid
    have keyJ := key_update_be t i j (some (b, t.low (t.itb i).hash))
    have keyK := key_update_be t i k (some (b, t.low (t.itb i).hash))
    change (Function.update t.itb i _ j).puuid = (Function.update t.itb i _ k).puuid at samePuuid
    change (Function.update t.itb i _ j).itbid = (Function.update t.itb i _ k).itbid at sameItbid
    rw [keyJ.1, keyK.1] at samePuuid
    rw [keyJ.2.1, keyK.2.1] at sameItbid
    change (Function.update t.itb i _ j).be ≠ none at first
    change (Function.update t.itb i _ k).be ≠ none at second
    have sameKey : t.key j = t.key k := Prod.ext samePuuid sameItbid
    rcases eq_or_ne j i with sameJ | differentJ <;> rcases eq_or_ne k i with sameK | differentK
    · exact sameJ.trans sameK.symm
    · rw [Function.update_of_ne differentK] at second
      rw [sameJ] at sameKey
      exact absurd sameKey.symm (absent k second)
    · rw [Function.update_of_ne differentJ] at first
      rw [sameK] at sameKey
      exact absurd sameKey (absent j first)
    · rw [Function.update_of_ne differentJ] at first
      rw [Function.update_of_ne differentK] at second
      exact hung.keys j k first second samePuuid sameItbid

/-- Hanging a block with a count that covers it. -/
theorem CbhtGood.hang (good : CbhtGood hvfsHash t)
    (search : mdsCbhtSearchDir t (t.itb i).hash = some b)
    (hashed : (t.itb i).hash = hvfsHash (t.itb i).puuid (t.itb i).itbid)
    (absent : ∀ j, t.Attached j → t.key j ≠ t.key i) {active : Int}
    (covers : (t.load b : Int) + 1 ≤ active)
    (room : active ≤ ((2 * 2 ^ t.bucketDepth : Nat) : Int)) :
    CbhtGood hvfsHash (t.hang i b (t.low (t.itb i).hash) active) := by
  have present := good.dir.searchDir_lt search
  have blocks := good.blocks
  have other := hang_other t i b (t.low (t.itb i).hash) active
  have here := hang_here t i b (t.low (t.itb i).hash) active
  have depths := hang_fields t i b (t.low (t.itb i).hash) active
  have hung := blocks.hung.hang good.dir search hashed absent active
  refine ⟨good.dir.hang _ _ _ _, hung.placed, hung.hashed, hung.nodup, hung.keys, ?_, ?_, ?_⟩
  · intro c presentOther
    rw [(depths c).2.2]
    exact blocks.adepth c presentOther
  · intro c presentOther
    rcases eq_or_ne c b with rfl | different
    · have more : (t.hang i c (t.low (t.itb i).hash) active).load c ≤ t.load c + 1 := by
        unfold Cbht.load
        refine (sum_range_le (k := t.low (t.itb i).hash) ?_ ?_ _).1
        · rw [here]
          simp only [Function.update_self, List.length_cons, le_refl]
        · intro o different
          rw [here]
          simp only [Function.update_of_ne different]
      rw [here]
      simp only
      omega
    · unfold Cbht.load
      rw [other c different]
      exact blocks.counted c presentOther
  · intro c presentOther
    rcases eq_or_ne c b with rfl | different
    · rw [here]
      exact room
    · rw [other c different]
      exact blocks.limit c presentOther

/-- Attaching a block under a key that is not in the table. -/
theorem CbhtGood.attach (good : CbhtGood hvfsHash t)
    (search : mdsCbhtSearchDir t (t.itb i).hash = some b)
    (hashed : (t.itb i).hash = hvfsHash (t.itb i).puuid (t.itb i).itbid)
    (absent : ∀ j, t.Attached j → t.key j ≠ t.key i)
    (room : (t.bucket b).active < ((2 * 2 ^ t.bucketDepth : Nat) : Int)) :
    CbhtGood hvfsHash (t.attach i b (t.low (t.itb i).hash)) := by
  have counted := good.blocks.counted b (good.dir.searchDir_lt search)
  have covers : (t.load b : Int) + 1 ≤ (t.bucket b).active + 1 := by omega
  exact good.hang search hashed absent covers (by omega)

section Detach

variable (t : Cbht) (i b o : Nat)

theorem detach_other (c : Nat) (different : c ≠ b) : (t.detach i b o).bucket c = t.bucket c :=
  Function.update_of_ne different _ _

theorem detach_here : (t.detach i b o).bucket b =
    { t.bucket b with
      content := Function.update (t.bucket b).content o (((t.bucket b).content o).erase i) } :=
  Function.update_self _ _ _

theorem detach_fields (c : Nat) : ((t.detach i b o).bucket c).depth = (t.bucket c).depth ∧
    ((t.detach i b o).bucket c).id = (t.bucket c).id ∧
    ((t.detach i b o).bucket c).adepth = (t.bucket c).adepth ∧
    ((t.detach i b o).bucket c).active = (t.bucket c).active := by
  rcases eq_or_ne c b with rfl | different
  · rw [detach_here]
    exact ⟨rfl, rfl, rfl, rfl⟩
  · rw [detach_other t i b o c different]
    exact ⟨rfl, rfl, rfl, rfl⟩

end Detach

theorem CbhtDirected.detach (dir : CbhtDirected t) (i b o : Nat) : CbhtDirected (t.detach i b o) :=
  dir.congr _ (fun c => (detach_fields t i b o c).1) fun c => (detach_fields t i b o c).2.1

/-- Taking a block off its chain. -/
theorem CbhtHung.detach (hung : CbhtHung hvfsHash t) {o : Nat}
    (be : (t.itb i).be = some (b, o)) : CbhtHung hvfsHash (t.detach i b o) := by
  obtain ⟨present, low, member⟩ := (hung.placed i b o).mp be
  have other := detach_other t i b o
  have here := detach_here t i b o
  have fields := detach_fields t i b o
  have free : ∀ j, (Function.update t.itb i { t.itb i with be := none } j).be =
      if j = i then none else (t.itb j).be := by
    intro j
    rw [Function.update_apply]
    split_ifs <;> rfl
  refine ⟨?_, ?_, ?_, ?_⟩
  · intro j c k
    change (Function.update t.itb i { t.itb i with be := none } j).be = some (c, k) ↔
      c < t.buckets ∧ k < 2 ^ t.bucketDepth ∧ _
    rw [free]
    split_ifs with same
    · subst same
      refine ⟨fun absurdity => (by cases absurdity), ?_⟩
      rintro ⟨presentOther, lowOther, inside⟩
      rcases eq_or_ne c b with rfl | different
      · rw [here] at inside
        simp only [Function.update_apply] at inside
        split_ifs at inside with place
        · exact absurd inside (hung.nodup c present o).not_mem_erase
        · have there := (hung.placed j c k).mpr ⟨present, lowOther, inside⟩
          rw [be] at there
          cases there
          exact absurd rfl place
      · rw [other c different] at inside
        have there := (hung.placed j c k).mpr ⟨presentOther, lowOther, inside⟩
        rw [be] at there
        cases there
        exact absurd rfl different
    · rw [hung.placed j c k]
      refine and_congr_right fun _ => and_congr_right fun _ => ?_
      rcases eq_or_ne c b with rfl | different
      · rw [here]
        simp only [Function.update_apply]
        split_ifs with place
        · rw [place, List.mem_erase_of_ne same]
        · rfl
      · rw [other c different]
  · intro j c k placed
    obtain ⟨puuid, itbid, hash⟩ := key_update_be t i j none
    change (Function.update t.itb i { t.itb i with be := none } j).be = some (c, k) at placed
    rw [free] at placed
    split_ifs at placed
    change (Function.update t.itb i _ j).hash = hvfsHash (Function.update t.itb i _ j).puuid
      (Function.update t.itb i _ j).itbid ∧ k = t.low (Function.update t.itb i _ j).hash ∧
      t.high (Function.update t.itb i _ j).hash % _ = _
    rw [puuid, itbid, hash, (fields c).1, (fields c).2.1]
    exact hung.hashed j c k placed
  · intro c presentOther k
    rcases eq_or_ne c b with rfl | different
    · rw [here]
      simp only [Function.update_apply]
      split_ifs
      · exact (hung.nodup c present o).erase i
      · exact hung.nodup c present k
    · rw [other c different]
      exact hung.nodup c presentOther k
  · intro j k first second samePuuid sameItbid
    have keyJ := key_update_be t i j none
    have keyK := key_update_be t i k none
    change (Function.update t.itb i _ j).puuid = (Function.update t.itb i _ k).puuid at samePuuid
    change (Function.update t.itb i _ j).itbid = (Function.update t.itb i _ k).itbid at sameItbid
    rw [keyJ.1, keyK.1] at samePuuid
    rw [keyJ.2.1, keyK.2.1] at sameItbid
    change (Function.update t.itb i { t.itb i with be := none } j).be ≠ none at first
    change (Function.update t.itb i { t.itb i with be := none } k).be ≠ none at second
    rw [free] at first second
    split_ifs at first second
    · exact absurd rfl first
    · exact absurd rfl first
    · exact absurd rfl second
    · exact hung.keys j k first second samePuuid sameItbid

/-- Detaching a block from its chain. -/
theorem CbhtGood.detach (good : CbhtGood hvfsHash t) {o : Nat}
    (be : (t.itb i).be = some (b, o)) : CbhtGood hvfsHash (t.detach i b o) := by
  have blocks := good.blocks
  have other := detach_other t i b o
  have here := detach_here t i b o
  have fields := detach_fields t i b o
  have hung := blocks.hung.detach be
  refine ⟨good.dir.detach i b o, hung.placed, hung.hashed, hung.nodup, hung.keys, ?_, ?_, ?_⟩
  · intro c presentOther
    rw [(fields c).2.2.1]
    exact blocks.adepth c presentOther
  · intro c presentOther
    rw [(fields c).2.2.2]
    refine le_trans ?_ (blocks.counted c presentOther)
    rcases eq_or_ne c b with rfl | different
    · unfold Cbht.load
      have erased : (((t.detach i c o).bucket c).content o).length ≤
          ((t.bucket c).content o).length + 0 := by
        rw [here]
        simp only [Function.update_self, Nat.add_zero]
        exact List.length_erase_le
      have others : ∀ k, k ≠ o → (((t.detach i c o).bucket c).content k).length =
          ((t.bucket c).content k).length := by
        intro k different
        rw [here]
        simp only [Function.update_of_ne different]
      exact_mod_cast (sum_range_le erased others (2 ^ t.bucketDepth)).1
    · unfold Cbht.load
      rw [other c different]
      exact le_refl _
  · intro c presentOther
    rw [(fields c).2.2.2]
    exact blocks.limit c presentOther

end Change

/-! ### The operations -/

/-- What an insertion does: it finds the block that has the key, or attaches the new one. -/
structure Inserted (hvfsHash : U64 → U64 → U64) (t : Cbht) (i : Nat) (reply : InsertReply)
    (next : Cbht) : Prop where
  good : CbhtGood hvfsHash next
  key : ∀ j, next.key j = t.key j
  outcome :
    (∃ j, t.Attached j ∧ t.key j = t.key i ∧ reply.err = -EEXIST ∧ reply.oi = some j ∧
      ∀ k, next.Attached k ↔ t.Attached k) ∨
    ((∀ j, t.Attached j → t.key j ≠ t.key i) ∧ reply.err = 0 ∧ reply.oi = none ∧
      ∀ k, next.Attached k ↔ t.Attached k ∨ k = i)
  /-- The bucket entry handed back is the one of the block that has the key. -/
  place : reply.oe = (next.itb (reply.oi.getD i)).be ∧ reply.ob = reply.oe.map Prod.fst

section Operations

variable {hvfsHash : U64 → U64 → U64} {t : Cbht} {i : Nat}

/-- A block that is not attached may get another header. -/
theorem CbhtGood.setHeader (good : CbhtGood hvfsHash t) {header : Itbh}
    (free : (t.itb i).be = none) (stays : header.be = none) :
    CbhtGood hvfsHash { t with itb := Function.update t.itb i header } := by
  have be : ∀ j, (Function.update t.itb i header j).be = (t.itb j).be := by
    intro j
    rw [Function.update_apply]
    split_ifs with same
    · rw [same, free, stays]
    · rfl
  have kept : ∀ j, (t.itb j).be ≠ none → Function.update t.itb i header j = t.itb j := by
    intro j attached
    refine Function.update_of_ne ?_ _ _
    rintro rfl
    exact attached free
  refine ⟨good.dir.congr _ (fun _ => rfl) fun _ => rfl, fun j b o => ?_, fun j b o place => ?_,
    good.blocks.nodup, fun j k first second samePuuid sameItbid => ?_, good.blocks.adepth,
    good.blocks.counted, good.blocks.limit⟩
  · simp only [be]
    exact good.blocks.placed j b o
  · simp only [be] at place ⊢
    have attached : (t.itb j).be ≠ none := by
      rw [place]
      nofun
    simp only [kept j attached]
    exact good.blocks.hashed j b o place
  · simp only [be] at first second
    simp only [kept j first, kept k second] at samePuuid sameItbid
    exact good.blocks.keys j k first second samePuuid sameItbid

/-- Noting the hash in the header of a block. -/
theorem CbhtGood.setHash (good : CbhtGood hvfsHash t) (i : Nat) :
    CbhtGood hvfsHash (t.noteHash i (hvfsHash (t.itb i).puuid (t.itb i).itbid)) := by
  unfold Cbht.noteHash
  by_cases free : (t.itb i).be = none
  · exact good.setHeader free free
  · obtain ⟨⟨b, o⟩, be⟩ := Option.ne_none_iff_exists'.mp free
    rw [← (good.blocks.hashed i b o be).1]
    have same : Function.update t.itb i { t.itb i with hash := (t.itb i).hash } = t.itb :=
      Function.update_eq_self i t.itb
    rw [same]
    exact good

/-- An insertion into a bucket with room. -/
theorem insertLoop_room (good : CbhtGood hvfsHash t) {b : Nat}
    (hashed : (t.itb i).hash = hvfsHash (t.itb i).puuid (t.itb i).itbid)
    (search : mdsCbhtSearchDir t (t.itb i).hash = some b)
    (room : (t.bucket b).active < ((2 * 2 ^ t.bucketDepth : Nat) : Int)) (fuel : Nat) :
    ∃ reply next, insertLoop i (t.itb i).hash (fuel + 1) t = .ok (reply, next) ∧
      Inserted hvfsHash t i reply next := by
  have present := good.dir.searchDir_lt search
  have notFull : ¬(t.bucket b).active ≥ ((2 <<< (t.bucket b).adepth : Nat) : Int) := by
    rw [good.blocks.adepth b present, Nat.shiftLeft_eq]
    omega
  have chain : ∀ j, ((t.bucket b).content (t.low (t.itb i).hash)).find?
      (t.keyIs (t.itb i).puuid (t.itb i).itbid) = some j ↔ t.Attached j ∧ t.key j = t.key i := by
    intro j
    rw [hashed] at search ⊢
    exact good.find_iff search
  unfold insertLoop
  simp only [search, if_neg notFull, low_eq]
  rcases hit : ((t.bucket b).content (t.low (t.itb i).hash)).find?
    (t.keyIs (t.itb i).puuid (t.itb i).itbid) with _ | j
  · have absent : ∀ j, t.Attached j → t.key j ≠ t.key i := by
      intro j attached same
      have found := (chain j).mpr ⟨attached, same⟩
      rw [hit] at found
      cases found
    refine ⟨_, _, rfl, good.attach search hashed absent room, fun j => ?_,
      Or.inr ⟨absent, rfl, rfl, fun k => ?_⟩, ?_, rfl⟩
    · have kept := key_update_be t i j (some (b, t.low (t.itb i).hash))
      exact Prod.ext kept.1 kept.2.1
    · change (Function.update t.itb i _ k).be ≠ none ↔ _
      rcases eq_or_ne k i with same | different
      · rw [same, Function.update_self]
        simp
      · rw [Function.update_of_ne different]
        simp [different, Cbht.Attached]
    · change some (b, t.low (t.itb i).hash) = (Function.update t.itb i _ i).be
      rw [Function.update_self]
  · obtain ⟨attached, same⟩ := (chain j).mp hit
    refine ⟨_, _, rfl, good, fun _ => rfl, Or.inl ⟨j, attached, same, rfl, rfl, fun _ => Iff.rfl⟩,
      ?_, rfl⟩
    exact ((good.blocks.placed j b _).mpr ⟨present, low_lt t _, List.mem_of_find?_eq_some hit⟩).symm

/-- `mds_cbht_insert_bbrlocked` returns, unless a split would make the directory too deep. -/
theorem mdsCbhtInsert_spec (good : CbhtGood hvfsHash t) (i : Nat) :
    mdsCbhtInsert hvfsHash t i = .error .depth ∨
      ∃ reply next, mdsCbhtInsert hvfsHash t i = .ok (reply, next) ∧
        Inserted hvfsHash t i reply next := by
  have goodNoted := good.setHash i
  unfold mdsCbhtInsert
  simp only
  obtain ⟨noted, same⟩ : ∃ noted, noted =
      t.noteHash i (hvfsHash (t.itb i).puuid (t.itb i).itbid) := ⟨_, rfl⟩
  have fields : (∀ j, noted.key j = t.key j) ∧ (∀ j, noted.Attached j ↔ t.Attached j) ∧
      (noted.itb i).hash = hvfsHash (t.itb i).puuid (t.itb i).itbid := by
    rw [same]
    unfold Cbht.noteHash
    refine ⟨fun j => ?_, fun j => ?_, by simp only [Function.update_self]⟩
    · unfold Cbht.key
      simp only [Function.update_apply]
      split_ifs with here
      · rw [here]
      · rfl
    · unfold Cbht.Attached
      simp only [Function.update_apply]
      split_ifs with here
      · rw [here]
      · rfl
  rw [← same] at goodNoted ⊢
  obtain ⟨keys, attached, hash⟩ := fields
  obtain ⟨samePuuid, sameItbid⟩ := Prod.mk.inj (keys i)
  -- what an insertion into a table with the same blocks is for `t`
  have carry : ∀ middle reply next, (∀ j, middle.key j = noted.key j) →
      (∀ j, middle.Attached j ↔ noted.Attached j) → Inserted hvfsHash middle i reply next →
      Inserted hvfsHash t i reply next := by
    intro middle reply next keysMiddle attachedMiddle inserted
    refine ⟨inserted.good, fun j => by rw [inserted.key, keysMiddle, keys], ?_, inserted.place⟩
    have outcome := inserted.outcome
    simp only [attachedMiddle, attached, keysMiddle, keys] at outcome
    exact outcome
  have search := goodNoted.dir.searchDir (noted.itb i).hash
  generalize noted.slot _ = b at search
  have present := goodNoted.dir.searchDir_lt search
  have hashed : (noted.itb i).hash = hvfsHash (noted.itb i).puuid (noted.itb i).itbid := by
    rw [hash, samePuuid, sameItbid]
  rw [← hash]
  by_cases room : (noted.bucket b).active < ((2 * 2 ^ noted.bucketDepth : Nat) : Int)
  · obtain ⟨reply, next, ended, inserted⟩ := insertLoop_room goodNoted hashed search room 1
    exact Or.inr ⟨reply, next, ended, carry noted reply next (fun _ => rfl) (fun _ => Iff.rfl)
      inserted⟩
  · have full : (noted.bucket b).active ≥ ((2 <<< (noted.bucket b).adepth : Nat) : Int) := by
      rw [goodNoted.blocks.adepth b present, Nat.shiftLeft_eq]
      omega
    have serves := (goodNoted.dir.searchDir_iff present (noted.itb i).hash).mp search
    have split : cbhtBucketSplit noted b (noted.itb i).hash noted.dirDepth =
        splitLoop (noted.itb i).hash 31 noted b := by
      unfold cbhtBucketSplit
      rw [if_neg (not_lt.mpr full), if_neg (not_not.mpr rfl)]
    unfold insertLoop
    simp only [search, if_pos full, split]
    rcases splitLoop_spec goodNoted present serves (Nat.le_add_right 31 _) with
      stop | ⟨final, side, ended, goodFinal, moved, searchFinal, roomFinal⟩
    · left
      rw [stop]
    · right
      rw [ended]
      simp only [true_or, if_true]
      rw [← moved.hash i] at searchFinal ⊢
      have hashedFinal : (final.itb i).hash =
          hvfsHash (final.itb i).puuid (final.itb i).itbid := by
        rw [moved.hash, moved.puuid, moved.itbid, hashed]
      obtain ⟨reply, next, inserted, spec⟩ :=
        insertLoop_room goodFinal hashedFinal searchFinal roomFinal 0
      refine ⟨reply, next, inserted, carry final reply next (fun j => ?_) (fun j => ?_) spec⟩
      · exact Prod.ext (moved.puuid j) (moved.itbid j)
      · exact not_congr (moved.attached j)

/-- `mds_cbht_del` detaches the block, if it is attached. -/
theorem mdsCbhtDel_spec (good : CbhtGood hvfsHash t) (i : Nat) :
    (mdsCbhtDel t i).1 = 0 ∧ CbhtGood hvfsHash (mdsCbhtDel t i).2 ∧
      (∀ j, (mdsCbhtDel t i).2.key j = t.key j) ∧
      ∀ j, (mdsCbhtDel t i).2.Attached j ↔ t.Attached j ∧ j ≠ i := by
  have search := good.dir.searchDir (t.itb i).hash
  generalize t.slot _ = b at search
  unfold mdsCbhtDel
  simp only [search, low_eq]
  by_cases here : (t.itb i).be = some (b, t.low (t.itb i).hash)
  · rw [if_neg (not_not.mpr here)]
    refine ⟨rfl, good.detach here, fun j => ?_, fun j => ?_⟩
    · have kept := key_update_be t i j none
      exact Prod.ext kept.1 kept.2.1
    · change (Function.update t.itb i _ j).be ≠ none ↔ _
      rcases eq_or_ne j i with same | different
      · rw [same, Function.update_self]
        simp
      · rw [Function.update_of_ne different]
        simp [different, Cbht.Attached]
  · rw [if_pos here]
    refine ⟨rfl, good, fun _ => rfl, fun j => ⟨fun attached => ⟨attached, ?_⟩, And.left⟩⟩
    rintro rfl
    obtain ⟨place, found, _, be, _⟩ := good.place attached
    cases search.symm.trans found
    exact here be

end Operations

/-! ### The map -/

/-- What a call does to the map from keys to blocks. -/
def tableStep (key : Nat → U64 × U64) (table : U64 × U64 → Option Nat) :
    CbhtCall → U64 × U64 → Option Nat
  | .insert i => if table (key i) = none then Function.update table (key i) (some i) else table
  | .del i => if table (key i) = some i then Function.update table (key i) none else table

/-- The block that was inserted under each key and not deleted since. -/
def tableAfter (key : Nat → U64 × U64) (calls : List CbhtCall) : U64 × U64 → Option Nat :=
  calls.foldl (tableStep key) fun _ => none

/-- The server's blocks before the first call: they have their keys and are not in the table. -/
def freeItbs (key : Nat → U64 × U64) : Nat → Itbh := fun i => ⟨(key i).1, (key i).2, 0, none⟩

/-- The blocks in the table are those of the map. -/
structure Tabled (hvfsHash : U64 → U64 → U64) (key : Nat → U64 × U64) (t : Cbht)
    (table : U64 × U64 → Option Nat) : Prop where
  good : CbhtGood hvfsHash t
  keys : ∀ i, t.key i = key i
  bound : ∀ k i, table k = some i ↔ t.Attached i ∧ key i = k

section Table

variable {hvfsHash : U64 → U64 → U64} {key : Nat → U64 × U64} {t : Cbht}
  {table : U64 × U64 → Option Nat}

theorem Tabled.step (tabled : Tabled hvfsHash key t table) {call : CbhtCall} {next : Cbht}
    (stepped : cbhtStep hvfsHash t call = some next) :
    Tabled hvfsHash key next (tableStep key table call) := by
  cases call with
  | insert i =>
    rcases mdsCbhtInsert_spec tabled.good i with stop | ⟨reply, after, result, inserted⟩
    · rw [cbhtStep, stop] at stepped
      cases stepped
    · rw [cbhtStep, result] at stepped
      cases stepped
      refine ⟨inserted.good, fun j => (inserted.key j).trans (tabled.keys j), fun k j => ?_⟩
      rcases inserted.outcome with ⟨first, attached, same, _, _, kept⟩ | ⟨absent, _, _, more⟩
      · have bound : table (key i) = some first :=
          (tabled.bound _ _).mpr ⟨attached, by rw [← tabled.keys, same, tabled.keys]⟩
        rw [tableStep, if_neg (by rw [bound]; exact Option.some_ne_none _), tabled.bound, kept]
      · have unbound : table (key i) = none := by
          rcases bound : table (key i) with _ | first
          · rfl
          · obtain ⟨attached, same⟩ := (tabled.bound _ _).mp bound
            exact absurd (by rw [tabled.keys, tabled.keys, same]) (absent first attached)
        rw [tableStep, if_pos unbound, Function.update_apply, more]
        split_ifs with here
        · subst here
          constructor
          · intro bound
            cases bound
            exact ⟨Or.inr rfl, rfl⟩
          · rintro ⟨attached | rfl, same⟩
            · rw [(tabled.bound _ _).mpr ⟨attached, same⟩] at unbound
              cases unbound
            · rfl
        · rw [tabled.bound]
          refine and_congr_left fun same => ⟨Or.inl, fun attached => attached.resolve_right ?_⟩
          rintro rfl
          exact here same.symm
  | del i =>
    obtain ⟨_, good, keys, attached⟩ := mdsCbhtDel_spec tabled.good i
    cases stepped
    refine ⟨good, fun j => (keys j).trans (tabled.keys j), fun k j => ?_⟩
    rw [attached]
    by_cases bound : table (key i) = some i
    · rw [tableStep, if_pos bound, Function.update_apply]
      split_ifs with here
      · subst here
        refine ⟨fun absurdity => (by cases absurdity), ?_⟩
        rintro ⟨⟨kept, different⟩, same⟩
        have other := (tabled.bound _ _).mpr ⟨kept, same⟩
        rw [bound] at other
        cases other
        exact absurd rfl different
      · rw [tabled.bound]
        refine and_congr_left fun same => ⟨fun kept => ⟨kept, ?_⟩, And.left⟩
        rintro rfl
        exact here same.symm
    · rw [tableStep, if_neg bound, tabled.bound]
      refine and_congr_left fun same => ⟨fun kept => ⟨kept, ?_⟩, And.left⟩
      rintro rfl
      exact bound ((tabled.bound _ _).mpr ⟨kept, rfl⟩)

/-- The table after `mds_cbht_init`. -/
theorem mdsCbhtInit_tabled (hvfsHash : U64 → U64 → U64) (bdepth : Nat) (key : Nat → U64 × U64) :
    Tabled hvfsHash key (mdsCbhtInit bdepth (freeItbs key)) fun _ => none := by
  have bucket : (mdsCbhtInit bdepth (freeItbs key)).bucket 0 = ⟨0, bdepth, 0, 0, fun _ => []⟩ := rfl
  have zero : ∀ b, b < (mdsCbhtInit bdepth (freeItbs key)).buckets → b = 0 :=
    fun b low => Nat.lt_one_iff.mp low
  have entry : ∀ j < 2 ^ (mdsCbhtInit bdepth (freeItbs key)).dirDepth,
      j = 0 ∧ dirEntry (mdsCbhtInit bdepth (freeItbs key)).dir j = some 0 := by
    intro j inside
    obtain rfl : j = 0 := Nat.lt_one_iff.mp inside
    exact ⟨rfl, rfl⟩
  have load : (mdsCbhtInit bdepth (freeItbs key)).load 0 = 0 := by
    unfold Cbht.load
    rw [bucket]
    simp only [List.length_nil]
    exact List.sum_eq_zero fun _ member => (List.mem_map.mp member).choose_spec.2.symm
  refine ⟨⟨⟨⟨⟨rfl, rfl⟩, ?_⟩, ?_, ?_, Extendible.Directed.single _ ?_ ?_, ?_⟩,
    ⟨?_, ?_, ?_, ?_, ?_, ?_, ?_⟩⟩, fun _ => rfl, ?_⟩
  · intro s member
    obtain rfl := List.mem_singleton.mp member
    exact ⟨Nat.one_pos, show 1 ≤ SEG_TOTAL by decide⟩
  · intro j inside
    unfold Cbht.slot
    rw [(entry j inside).2]
    rfl
  · intro b
    constructor
    · intro low
      exact ⟨0, Nat.two_pow_pos _, (zero b low).symm⟩
    · rintro ⟨j, inside, rfl⟩
      unfold Cbht.slot
      rw [(entry j inside).2]
      exact Nat.one_pos
  · exact congrArg Bucket.depth bucket
  · exact congrArg Bucket.id bucket
  · exact Nat.succ_pos 30
  · intro i b o
    refine ⟨fun absurdity => (by cases absurdity), fun ⟨low, _, member⟩ => ?_⟩
    rw [zero b low, bucket] at member
    cases member
  · exact fun _ _ _ absurdity => by cases absurdity
  · intro b low o
    rw [zero b low, bucket]
    exact List.nodup_nil
  · exact fun _ _ attached => absurd rfl attached
  · intro b low
    rw [zero b low, bucket]
    rfl
  · intro b low
    rw [zero b low, load, bucket]
    exact le_refl _
  · intro b low
    rw [zero b low, bucket]
    exact Int.natCast_nonneg _
  · intro k i
    exact ⟨fun absurdity => (by cases absurdity), fun ⟨attached, _⟩ => absurd rfl attached⟩

/-- The table is a finite map. -/
structure FiniteMap (hvfsHash : U64 → U64 → U64) (key : Nat → U64 × U64) (t : Cbht)
    (table : U64 × U64 → Option Nat) : Prop where
  /-- Each slot of the directory holds the bucket of its last bits. -/
  slots : ∀ j < 2 ^ t.dirDepth, ∃ b, dirEntry t.dir j = some b ∧
    (t.bucket b).depth ≤ t.dirDepth ∧ (t.bucket b).id = j % 2 ^ (t.bucket b).depth ∧
    ∀ k < 2 ^ t.dirDepth, dirEntry t.dir k = some b ↔
      k % 2 ^ (t.bucket b).depth = j % 2 ^ (t.bucket b).depth
  /-- A block on a chain belongs there and knows the chain. -/
  chains : ∀ j < 2 ^ t.dirDepth, ∀ b, dirEntry t.dir j = some b → ∀ o < 2 ^ t.bucketDepth,
    ∀ i ∈ (t.bucket b).content o, (t.itb i).be = some (b, o) ∧
      (t.itb i).hash = hvfsHash (key i).1 (key i).2 ∧
      o = (t.itb i).hash.toNat % 2 ^ t.bucketDepth ∧
      dirEntry t.dir ((t.itb i).hash.toNat / 2 ^ t.bucketDepth % 2 ^ t.dirDepth) = some b
  /-- A block that knows a chain is on it, once. -/
  attached : ∀ i b o, (t.itb i).be = some (b, o) →
    ((t.bucket b).content o).count i = 1 ∧ ∃ j < 2 ^ t.dirDepth, dirEntry t.dir j = some b
  /-- A search finds what was inserted and not deleted since. -/
  search : ∀ puuid itbid, mdsCbhtFind hvfsHash t puuid itbid = table (puuid, itbid)
  /-- A key has at most one block. -/
  unique : ∀ i j, (t.itb i).be ≠ none → (t.itb j).be ≠ none → key i = key j → i = j
  /-- An insertion returns unless the directory would get too deep; a key in use is refused with
  the block that has it. -/
  insert : ∀ i, mdsCbhtInsert hvfsHash t i = .error .depth ∨
    ∃ reply next, mdsCbhtInsert hvfsHash t i = .ok (reply, next) ∧
      reply.oe = (next.itb (reply.oi.getD i)).be ∧
      match table (key i) with
      | some first => reply.err = -EEXIST ∧ reply.oi = some first
      | none => reply.err = 0 ∧ reply.oi = none
  del : ∀ i, (mdsCbhtDel t i).1 = 0

theorem Tabled.finiteMap (tabled : Tabled hvfsHash key t table) :
    FiniteMap hvfsHash key t table where
  slots j inside := by
    have dir := tabled.good.dir
    refine ⟨t.slot j, dir.entry j inside, dir.directed.shallow j inside,
      dir.directed.named j inside, fun k insideOther => ?_⟩
    rw [dir.entry k insideOther, Option.some_inj, dir.directed.slot_iff inside insideOther,
      dir.directed.named j inside]
  chains j inside b entry o low i member := by
    have dir := tabled.good.dir
    rw [dir.entry j inside] at entry
    have present := (dir.allocated b).mpr ⟨j, inside, Option.some.inj entry⟩
    have be := (tabled.good.blocks.placed i b o).mpr ⟨present, low, member⟩
    obtain ⟨hashed, place, bits⟩ := tabled.good.blocks.hashed i b o be
    refine ⟨be, ?_, place, ?_⟩
    · rw [← tabled.keys i, hashed]
      rfl
    · have search := (dir.searchDir_iff present (t.itb i).hash).mpr bits
      rw [dir.searchDir] at search
      rw [← search]
      exact dir.entry _ (Nat.mod_lt _ (Nat.two_pow_pos _))
  attached i b o be := by
    obtain ⟨present, low, member⟩ := (tabled.good.blocks.placed i b o).mp be
    obtain ⟨j, inside, slot⟩ := (tabled.good.dir.allocated b).mp present
    refine ⟨List.count_eq_one_of_mem (tabled.good.blocks.nodup b present o) member, j, inside, ?_⟩
    rw [tabled.good.dir.entry j inside, slot]
  search puuid itbid := by
    refine Option.ext fun i => ?_
    rw [tabled.good.mdsCbhtFind_iff, tabled.bound, tabled.keys]
  unique i j first second same := by
    rw [← tabled.keys i, ← tabled.keys j] at same
    exact tabled.good.blocks.keys i j first second (congrArg Prod.fst same)
      (congrArg Prod.snd same)
  insert i := by
    rcases mdsCbhtInsert_spec tabled.good i with stop | ⟨reply, next, result, inserted⟩
    · exact Or.inl stop
    · refine Or.inr ⟨reply, next, result, inserted.place.1, ?_⟩
      rcases inserted.outcome with ⟨first, attached, same, err, oi, _⟩ | ⟨absent, err, oi, _⟩
      · rw [(tabled.bound (key i) first).mpr ⟨attached, by rw [← tabled.keys, same, tabled.keys]⟩]
        exact ⟨err, oi⟩
      · rcases bound : table (key i) with _ | first
        · exact ⟨err, oi⟩
        · obtain ⟨attached, same⟩ := (tabled.bound _ _).mp bound
          exact absurd (by rw [tabled.keys, tabled.keys, same]) (absent first attached)
  del i := (mdsCbhtDel_spec tabled.good i).1

/-- After every sequence of insertions and deletions from `mds_cbht_init` on, for every hash and
every bucket depth, the table is the finite map that the sequence describes. -/
theorem cbht_finite_map (hvfsHash : U64 → U64 → U64) (bdepth : Nat) (key : Nat → U64 × U64)
    (calls : List CbhtCall) (t : Cbht)
    (reached : run (cbhtStep hvfsHash) (mdsCbhtInit bdepth (freeItbs key)) calls = some t) :
    FiniteMap hvfsHash key t (tableAfter key calls) := by
  have simulated : ∀ t table call next, Tabled hvfsHash key t table →
      cbhtStep hvfsHash t call = some next → Tabled hvfsHash key next (tableStep key table call) :=
    fun _ _ _ _ tabled stepped => tabled.step stepped
  exact (run_refines (Tabled hvfsHash key) simulated (mdsCbhtInit_tabled hvfsHash bdepth key)
    reached).finiteMap

/-- Three blocks, two of them with one key, in buckets of two chains; the first is deleted and the
third one takes its key. -/
theorem cbht_finite_map_reinserted :
    ∃ t, run (cbhtStep fun _ itbid => itbid)
        (mdsCbhtInit 1 (freeItbs fun i => (0, BitVec.ofNat 64 (i % 2))))
        [.insert 0, .insert 1, .insert 2, .del 0, .insert 2] = some t ∧
      FiniteMap (fun _ itbid => itbid) (fun i => (0, BitVec.ofNat 64 (i % 2))) t
        (tableAfter (fun i => (0, BitVec.ofNat 64 (i % 2)))
          [.insert 0, .insert 1, .insert 2, .del 0, .insert 2]) :=
  ⟨_, rfl, cbht_finite_map (fun _ itbid => itbid) 1 (fun i => (0, BitVec.ofNat 64 (i % 2)))
    [.insert 0, .insert 1, .insert 2, .del 0, .insert 2] _ rfl⟩

end Table

end Hvfs
