/-
This file verifies the walk of `itb_search`: it looks at the cells of one chain
in order and stops at the first entry that matches, and it always ends. It also
says when a stored name matches a requested one.
-/

import Hvfs.ItbPass
import Mathlib.Data.List.GetD

namespace Hvfs

/-! ### The walk -/

section Walk

variable {i : Itb} {chain : Nat → List Nat} {slot : Nat}

/-- The test that the walk makes at a cell. -/
def Itb.matchAt (i : Itb) (hi : HvfsIndex) (cell : Nat) : Bool :=
  iteMatch (i.ite (i.index cell).entry) hi

theorem itbFind_from (shape : Shape i chain) (hi : HvfsIndex) (front : List Nat) {rest : List Nat}
    {cell : Nat} (cells : chain slot = front ++ cell :: rest) {fuel : Nat}
    (enough : rest.length < fuel) :
    itbFind i hi fuel cell = some ((cell :: rest).find? (i.matchAt hi)) := by
  induction rest generalizing fuel front cell with
  | nil =>
    obtain ⟨fuel, rfl⟩ := Nat.exists_eq_succ_of_ne_zero (Nat.ne_of_gt enough)
    have flag := shape.chains.flag_of_last front cells
    simp only [itbFind, if_pos (shape.chains.lt_of_mem (mem_of_cells cells)), flag]
    by_cases hit : i.matchAt hi cell = true
    · rw [List.find?_cons_of_pos hit]
      exact if_pos hit
    · rw [List.find?_cons_of_neg hit]
      exact if_neg hit
  | cons follower rest inductionHypothesis =>
    obtain ⟨fuel, rfl⟩ := Nat.exists_eq_succ_of_ne_zero (Nat.ne_of_gt (Nat.zero_lt_of_lt enough))
    obtain ⟨flag, next⟩ := shape.chains.flag_of_more front cells
    have shifted : chain slot = (front ++ [cell]) ++ follower :: rest := by
      rw [cells, List.append_assoc]
      rfl
    have fewer : rest.length < fuel := by
      simp only [List.length_cons] at enough
      omega
    simp only [itbFind, if_pos (shape.chains.lt_of_mem (mem_of_cells cells)), flag]
    by_cases hit : i.matchAt hi cell = true
    · rw [List.find?_cons_of_pos hit]
      exact if_pos hit
    · rw [List.find?_cons_of_neg hit, ← inductionHypothesis _ shifted fewer, ← next]
      exact if_neg hit

/-- The walk ends, at the first cell of its chain that matches. -/
theorem itbFind_eq (shape : Shape i chain) (hi : HvfsIndex) (bound : slot < i.total) :
    itbFind i hi (2 * i.total + 1) slot = some ((chain slot).find? (i.matchAt hi)) := by
  by_cases free : (i.index slot).flag = .free
  · have low : slot < 2 * i.total := by omega
    rw [shape.chains.empty slot fun _ => free]
    simp only [itbFind, if_pos low, free]
    rfl
  · obtain ⟨rest, cells⟩ := (shape.chains.path slot bound free).exists_tail
    have length := shape.chains.length_le slot
    rw [cells, List.length_cons] at length
    rw [cells]
    exact itbFind_from shape hi [] cells (by omega)

end Walk

/-! ### Names -/

/-- A name that fits its field: at most 255 bytes, none of them zero. -/
structure ProperName (name : List U8) : Prop where
  short : name.length < HVFS_MAX_NAME_LEN
  noNul : 0 ∉ name

/-- A stored name matches the name it was copied from and no other. -/
theorem nameMatch_stored {name other : List U8} (proper : ProperName name)
    (properOther : ProperName other) : nameMatch (name ++ [0]) other = decide (name = other) := by
  rw [Bool.eq_iff_iff, decide_eq_true_iff]
  unfold nameMatch
  rw [Bool.and_eq_true, List.all_eq_true, beq_iff_eq]
  simp only [List.mem_range, beq_iff_eq]
  constructor
  · rintro ⟨same, ended⟩
    have notLonger : ¬name.length < other.length := by
      intro less
      have zero := same name.length less
      rw [List.getD_append_right _ _ _ _ (Nat.le_refl _), Nat.sub_self,
        List.getD_cons_zero, List.getD_eq_getElem _ _ less] at zero
      exact properOther.noNul (zero ▸ List.getElem_mem less)
    have notShorter : ¬other.length < name.length := by
      intro less
      rw [List.getD_append _ _ _ _ less, List.getD_eq_getElem _ _ less] at ended
      exact proper.noNul (ended ▸ List.getElem_mem less)
    refine List.ext_getElem (by omega) fun k low lowOther => ?_
    have equal := same k lowOther
    rw [List.getD_append _ _ _ _ low, List.getD_eq_getElem _ _ low,
      List.getD_eq_getElem _ _ lowOther] at equal
    exact equal
  · rintro rfl
    refine ⟨fun k low => List.getD_append _ _ _ _ low, ?_⟩
    rw [List.getD_append_right _ _ _ _ (Nat.le_refl _), Nat.sub_self]
    rfl

/-- A proper name is stored with its terminator. -/
theorem copyName_proper {name : List U8} (proper : ProperName name) :
    copyName [] name = name ++ [0] := by
  rw [copyName, if_pos proper.short, List.drop_nil]

/-! ### The search -/

/-- The flags that lead a search which found nothing to `itb_add_ite`. -/
def Creates (hi : HvfsIndex) : Bool :=
  Flag.has hi.flag INDEX_CREATE || Flag.has hi.flag INDEX_SYMLINK

section Search

variable {i : Itb} {chain : Nat → List Nat}

/-- `itb_search` ends, with one of its two plans. -/
theorem itbSearch_eq (shape : Shape i chain) (hmi : Hmi) (hi : HvfsIndex) :
    itbSearch hmi i hi =
      match (chain (hashSlot i hi.hash)).find? (i.matchAt hi) with
      | none =>
        if Creates hi then
          some (itbAddIte hmi i hi)
        else some ⟨-ENOENT, none, hmi, i⟩
      | some cell =>
        match planFound i hi cell with
        | .done err data => some ⟨err, data, hmi, i⟩
        | .dirty act => itbAct hmi i hi act := by
  have walk := itbFind_eq shape hi (hashSlot_lt i hi.hash)
  unfold itbSearch itbPlan
  rw [walk]
  cases (chain (hashSlot i hi.hash)).find? (i.matchAt hi) with
  | none =>
    have missing : planMissing hi =
        if Creates hi then .dirty .create else .done (-ENOENT) none := rfl
    simp only [missing]
    cases Creates hi <;> rfl
  | some cell =>
    simp only
    cases planFound i hi cell <;> rfl

theorem itbSearch_create (shape : Shape i chain) (hmi : Hmi) {hi : HvfsIndex}
    (missing : (chain (hashSlot i hi.hash)).find? (i.matchAt hi) = none)
    (create : Flag.has hi.flag INDEX_CREATE = true) :
    itbSearch hmi i hi = some (itbAddIte hmi i hi) := by
  rw [itbSearch_eq shape, missing]
  simp only [Creates, create, Bool.true_or, if_true]

theorem itbSearch_missing (shape : Shape i chain) (hmi : Hmi) {hi : HvfsIndex}
    (missing : (chain (hashSlot i hi.hash)).find? (i.matchAt hi) = none)
    (create : Flag.has hi.flag INDEX_CREATE = false)
    (symlink : Flag.has hi.flag INDEX_SYMLINK = false) :
    itbSearch hmi i hi = some ⟨-ENOENT, none, hmi, i⟩ := by
  rw [itbSearch_eq shape, missing]
  simp only [Creates, create, symlink, Bool.or_self, Bool.false_eq_true, if_false]

theorem itbSearch_found (shape : Shape i chain) (hmi : Hmi) {hi : HvfsIndex} {cell : Nat}
    (found : (chain (hashSlot i hi.hash)).find? (i.matchAt hi) = some cell) :
    itbSearch hmi i hi =
      match planFound i hi cell with
      | .done err data => some ⟨err, data, hmi, i⟩
      | .dirty act => itbAct hmi i hi act := by
  rw [itbSearch_eq shape, found]

end Search

end Hvfs
