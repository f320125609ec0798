/-
This file compares the metadata of a new file or directory with the request
that it was created for. The flags of the entry name its size, and so should
the attribute flags of its metadata.
-/

import Hvfs.Uuid

namespace Hvfs

/-! ### The metadata of a plain creation -/

/-- The attribute flag that goes with the size of an entry. -/
def sizeAttribute (flag : U32) : U32 :=
  (if Flag.has flag ITE_FLAG_SMALL then HVFS_MDU_IF_SMALL else 0) |||
    (if Flag.has flag ITE_FLAG_LARGE then HVFS_MDU_IF_LARGE else 0)

/-- The metadata that is due to an entry with these flags: one link, the flags of a normal entry of
its size, the fields of the update, and zero otherwise. -/
def Mdu.due (flag : U32) (mu : Option MduUpdate) : Mdu :=
  let start : Mdu := { flags := HVFS_MDU_IF_NORMAL ||| sizeAttribute flag, nlink := 1 }
  match mu with
  | none => start
  | some mu => start.store mu

/-- A request for a plain file or directory that keeps to its entry. -/
structure Plain (hi : HvfsIndex) : Prop where
  fits : hi.Fits
  link : Flag.has hi.flag INDEX_CREATE_LINK = false
  copy : Flag.has hi.flag INDEX_CREATE_COPY = false
  symlink : Flag.has hi.flag INDEX_SYMLINK = false

/-- The stored entry has the metadata that is due, and nothing of what its slot held before. -/
structure ReflectsRequest (hmi : Hmi) (call : Creation) : Prop where
  mdu : ((itbAddIte hmi call.itb call.hi).itb.ite call.nr).mdu =
    Mdu.due ((itbAddIte hmi call.itb call.hi).itb.ite call.nr).flag call.hi.data.mu
  noLeak : ∀ former, (itbAddIte hmi { call.itb with ite := former } call.hi).itb.ite call.nr =
    (itbAddIte hmi call.itb call.hi).itb.ite call.nr

/-- The size that a request asks for. -/
def sizeAsked (hi : HvfsIndex) : U32 :=
  if Flag.has hi.flag INDEX_CREATE_SMALL then HVFS_MDU_IF_SMALL
  else if Flag.has hi.flag INDEX_CREATE_LARGE then HVFS_MDU_IF_LARGE
  else 0

/-- The request asks for no size, or its update adds or clears the very flag of that size. -/
def SizeCovered (hi : HvfsIndex) : Prop :=
  sizeAsked hi = 0 ∨ ∃ mu, hi.data.mu = some mu ∧
    (Flag.has mu.valid MU_FLAG_ADD || Flag.has mu.valid MU_FLAG_CLR) = true ∧
    Flag.has mu.flags (sizeAsked hi) = true

theorem sizeAttribute_newFlag (hi : HvfsIndex) : sizeAttribute (newFlag hi) = sizeAsked hi := by
  unfold sizeAsked newFlag
  simp only
  split_ifs <;> decide

/-- A bit of the flags that an update leaves. -/
theorem store_getLsbD (flags update : U32) (add remove : Bool) {bit : Nat} (bound : bit < 32) :
    ((if add then flags ||| update else flags) &&&
        (if remove then ~~~update else BitVec.allOnes 32)).getLsbD bit =
      ((flags.getLsbD bit || (add && update.getLsbD bit)) &&
        !(remove && update.getLsbD bit)) := by
  rw [BitVec.getLsbD_and]
  congr 1
  · cases add
    · simp only [Bool.false_eq_true, if_false, Bool.false_and, Bool.or_false]
    · rw [if_pos rfl, BitVec.getLsbD_or, Bool.true_and]
  · cases remove
    · rw [if_neg Bool.false_ne_true, BitVec.getLsbD_allOnes, decide_eq_true bound, Bool.false_and,
        Bool.not_false]
    · rw [if_pos rfl, BitVec.getLsbD_not, decide_eq_true bound, Bool.true_and, Bool.true_and]

/-- One flag more shows after an update unless the update adds or clears it. -/
theorem store_flags_iff {flags update : U32} {bit : Nat} (bound : bit < 32)
    (clear : flags.getLsbD bit = false) (add remove : Bool) :
    (if add then flags ||| update else flags) &&&
          (if remove then ~~~update else BitVec.allOnes 32) =
        (if add then (flags ||| BitVec.twoPow 32 bit) ||| update
          else flags ||| BitVec.twoPow 32 bit) &&&
          (if remove then ~~~update else BitVec.allOnes 32) ↔
      (add || remove) = true ∧ update.getLsbD bit = true := by
  have set : (flags ||| BitVec.twoPow 32 bit).getLsbD bit = true := by
    rw [BitVec.getLsbD_or, BitVec.getLsbD_twoPow, decide_eq_true bound, decide_eq_true rfl]
    exact Bool.or_true _
  constructor
  · intro same
    have atBit := congrArg (fun word => word.getLsbD bit) same
    simp only [store_getLsbD _ _ _ _ bound, clear, set] at atBit
    revert atBit
    cases add <;> cases remove <;> cases update.getLsbD bit <;> decide
  · rintro ⟨covered, updated⟩
    apply BitVec.eq_of_getLsbD_eq
    intro index indexBound
    rw [store_getLsbD _ _ _ _ indexBound, store_getLsbD _ _ _ _ indexBound]
    by_cases same : bit = index
    · subst same
      rw [clear, set, updated]
      revert covered
      cases add <;> cases remove <;> decide
    · rw [BitVec.getLsbD_or, BitVec.getLsbD_twoPow, decide_eq_false same, Bool.and_false,
        Bool.or_false]

theorem has_twoPow (flags : U32) {bit : Nat} (bound : bit < 32) :
    Flag.has flags (BitVec.twoPow 32 bit) = flags.getLsbD bit := by
  have set : BitVec.twoPow 32 bit ≠ 0 := by
    intro zero
    have atBit := congrArg (fun word => word.getLsbD bit) zero
    simp only [BitVec.getLsbD_twoPow, decide_eq_true bound] at atBit
    exact absurd atBit (by simp)
  rw [Flag.has, BitVec.and_twoPow]
  cases flags.getLsbD bit
  · rfl
  · rw [if_pos rfl]
    exact bne_iff_ne.mpr set

/-- The two sizes are one flag each, which a normal entry does not have by itself. -/
theorem sizeAsked_cases (hi : HvfsIndex) :
    sizeAsked hi = 0 ∨ ∃ bit, bit < 32 ∧ sizeAsked hi = BitVec.twoPow 32 bit ∧
      HVFS_MDU_IF_NORMAL.getLsbD bit = false := by
  unfold sizeAsked
  split_ifs
  · exact Or.inr ⟨25, by decide, by decide, by decide⟩
  · exact Or.inr ⟨26, by decide, by decide, by decide⟩
  · exact Or.inl rfl

/-- The metadata of a plain entry is what is due to its size exactly when the size is covered. -/
theorem created_eq_due_iff (hi : HvfsIndex) :
    Mdu.created hi.data.mu = Mdu.due (newFlag hi) hi.data.mu ↔ SizeCovered hi := by
  unfold SizeCovered Mdu.due Mdu.created
  rw [sizeAttribute_newFlag]
  rcases sizeAsked_cases hi with zero | ⟨bit, bound, asked, clear⟩
  · rw [zero, show HVFS_MDU_IF_NORMAL ||| 0 = HVFS_MDU_IF_NORMAL from BitVec.or_zero]
    exact iff_of_true rfl (Or.inl rfl)
  · have some : sizeAsked hi ≠ 0 := by
      intro zero
      have := has_twoPow (BitVec.allOnes 32) bound
      rw [← asked, zero, BitVec.getLsbD_allOnes, decide_eq_true bound] at this
      exact absurd this (by decide)
    rw [or_iff_right some, asked]
    cases hi.data.mu with
    | none =>
      refine iff_of_false (fun same => ?_) fun ⟨_, absurdity, _⟩ => by cases absurdity
      have atBit := congrArg (fun mdu => mdu.flags.getLsbD bit) same
      simp only [BitVec.getLsbD_or, clear, BitVec.getLsbD_twoPow, decide_eq_true bound]
        at atBit
      exact absurd atBit (by decide)
    | some mu =>
      have flags := @store_flags_iff _ mu.flags _ bound clear
        (Flag.has mu.valid MU_FLAG_ADD) (Flag.has mu.valid MU_FLAG_CLR)
      rw [← has_twoPow mu.flags bound] at flags
      constructor
      · intro same
        exact ⟨mu, rfl, flags.mp (congrArg Mdu.flags same)⟩
      · rintro ⟨other, same, covered⟩
        cases same
        exact Mdu.ext rfl rfl rfl rfl rfl rfl (flags.mpr covered) rfl rfl rfl rfl rfl rfl

/-- An accepted plain creation stores what was asked for exactly when its size is covered. -/
theorem created_reflects_iff (hmi : Hmi) (call : Creation) (accepted : call.Accepted)
    (plain : Plain call.hi) : ReflectsRequest hmi call ↔ SizeCovered call.hi := by
  have stored := (accepted.stored hmi).2.2
  have mdu : ((itbAddIte hmi call.itb call.hi).itb.ite call.nr).mdu =
      Mdu.created call.hi.data.mu := by
    rw [stored, iteCreate_mdu hmi plain.copy plain.link plain.symlink]
  have flag : ((itbAddIte hmi call.itb call.hi).itb.ite call.nr).flag = newFlag call.hi := by
    rw [stored, iteCreate_flag]
    rfl
  rw [← created_eq_due_iff]
  constructor
  · rintro ⟨reflected, -⟩
    rw [← mdu, reflected, flag]
  · intro same
    refine ⟨by rw [mdu, flag, same], fun former => ?_⟩
    have other : Creation.Accepted ⟨{ call.itb with ite := former }, call.hi⟩ := accepted
    exact ((other.stored hmi).2.2).trans stored.symm

theorem created_reflects_iff_file :
    ReflectsRequest ⟨0, 0⟩ fileCreation ↔ SizeCovered fileCreation.hi :=
  created_reflects_iff ⟨0, 0⟩ fileCreation (by decide) ⟨by decide, by decide, by decide, by decide⟩

/-- A small file does not get the attribute flag of its size. -/
theorem small_not_reflected : ¬ReflectsRequest ⟨0, 0⟩
    ⟨emptyItb 3, collidingIndex (INDEX_CREATE ||| INDEX_CREATE_SMALL) 0 97⟩ :=
  fun reflected => absurd reflected.mdu (by decide)

end Hvfs
