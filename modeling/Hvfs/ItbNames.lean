/-
This file connects a block to the names in it: what an entry looks like after
`ite_create`, `ite_update` and the marking of `ite_unlink`, and which cell the
walk of `itb_search` finds for a name.

Every entry of a block that is only used by name carries a proper name and
hangs on the chain of that name's hash. Names do not say more than that about
unlinked entries: several of them may carry the same name.
-/

import Hvfs.ItbSearch
import Hvfs.NameMap

namespace Hvfs

/-! ### One entry -/

theorem muApply_mdu (mu : MduUpdate) (e : Ite) : (muApply mu e).mdu = e.mdu.store mu := by
  have clear : ∀ (flags : U32) (test : Bool),
      (if test then flags &&& ~~~mu.flags else flags) =
        flags &&& (if test then ~~~mu.flags else BitVec.allOnes 32) := by
    intro flags test
    cases test
    · exact BitVec.and_allOnes.symm
    · rfl
  apply Mdu.ext <;> simp only [muApply, Mdu.store, apply_ite Mdu.size, apply_ite Mdu.dev,
    apply_ite Mdu.mode, apply_ite Mdu.nlink, apply_ite Mdu.uid, apply_ite Mdu.gid,
    apply_ite Mdu.flags, apply_ite Mdu.atime, apply_ite Mdu.ctime, apply_ite Mdu.mtime,
    apply_ite Mdu.dtime, apply_ite Mdu.version, apply_ite Mdu.symname, ite_self, clear]

/-- An update without a valid field stores nothing. -/
theorem Mdu.store_invalid (mdu : Mdu) {mu : MduUpdate} (invalid : mu.valid = 0) :
    mdu.store mu = mdu := by
  have none : ∀ mask : U32, Flag.has mu.valid mask = false := by
    intro mask
    rw [invalid, Flag.has, show (0 : U32) &&& mask = 0 from BitVec.zero_and]
    rfl
  apply Mdu.ext <;> simp only [Mdu.store, none, Bool.false_eq_true, if_false]
  exact BitVec.and_allOnes

theorem newFlag_normal {hi : HvfsIndex} (link : Flag.has hi.flag INDEX_CREATE_LINK = false) :
    Flag.has (newFlag hi) ITE_FLAG_NORMAL = true := by
  unfold newFlag
  simp only [link, Bool.false_eq_true, if_false]
  split_ifs <;> decide

theorem newFlag_active (hi : HvfsIndex) : newFlag hi &&& ITE_STATE_MASK = ITE_ACTIVE := by
  unfold newFlag
  simp only
  split_ifs <;> decide

/-- The size tests of `ite_create` never hold: a new entry is also NORMAL or a link. -/
theorem sizeFlags_eq {hi : HvfsIndex} {e : Ite} (flag : e.flag = newFlag hi) (flags : U32) :
    sizeFlags e flags = flags := by
  have other : newFlag hi ≠ ITE_FLAG_SMALL ∧ newFlag hi ≠ ITE_FLAG_LARGE := by
    unfold newFlag
    simp only
    split_ifs <;> decide
  unfold sizeFlags
  rw [flag, if_neg (by simpa using other.1), if_neg (by simpa using other.2)]

theorem iteCreate_flag (hi : HvfsIndex) (e : Ite) : (iteCreate hi e).flag = e.flag := by
  unfold iteCreate
  simp only
  split_ifs
  · rfl
  · rfl
  · rfl
  · rfl
  · cases hi.data.mu with
    | none => rfl
    | some mu =>
      simp only
      split_ifs <;> rfl

theorem iteCreate_name (hi : HvfsIndex) (e : Ite) :
    (iteCreate hi e).name = copyName e.name hi.name := by
  unfold iteCreate
  simp only
  split_ifs
  · rfl
  · rfl
  · rfl
  · rfl
  · cases hi.data.mu with
    | none => rfl
    | some mu =>
      simp only
      split_ifs <;> rfl

/-- The metadata that a plain creation stores. -/
theorem iteCreate_mdu (hmi : Hmi) {hi : HvfsIndex}
    (copy : Flag.has hi.flag INDEX_CREATE_COPY = false)
    (link : Flag.has hi.flag INDEX_CREATE_LINK = false)
    (symlink : Flag.has hi.flag INDEX_SYMLINK = false) :
    (iteCreate hi (newIte hmi hi).1).mdu = Mdu.created hi.data.mu := by
  have flags : ∀ e : Ite, e.flag = newFlag hi → ∀ flags, sizeFlags e flags = flags :=
    fun e flag flags => sizeFlags_eq flag flags
  have start : (newIte hmi hi).1.mdu = {} := rfl
  have normal : (0 : U32) ||| HVFS_MDU_IF_NORMAL = HVFS_MDU_IF_NORMAL := by decide
  unfold iteCreate Mdu.created
  simp only [copy, link, symlink, Bool.false_eq_true, if_false, start]
  rw [flags _ rfl, normal]
  cases hi.data.mu with
  | none => rfl
  | some mu =>
    simp only
    split_ifs with invalid
    · rw [Mdu.store_invalid _ (by simpa using invalid)]
    · rw [muApply_mdu]

theorem setState_state (e : Ite) {state : U32} (within : state &&& ITE_STATE_MASK = state) :
    (e.setState state).state = state := by
  have cleared : e.flag &&& ~~~ITE_STATE_MASK &&& ITE_STATE_MASK = 0#32 := by
    rw [BitVec.and_assoc, show ~~~ITE_STATE_MASK &&& ITE_STATE_MASK = 0#32 by decide,
      BitVec.and_zero]
  unfold Ite.setState Ite.state
  change (e.flag &&& ~~~ITE_STATE_MASK ||| state) &&& ITE_STATE_MASK = state
  rw [BitVec.and_or_distrib_right, cleared, within, BitVec.zero_or]

theorem setState_normal (e : Ite) (state : U32) (normal : Flag.has e.flag ITE_FLAG_NORMAL = true) :
    Flag.has (e.setState state).flag ITE_FLAG_NORMAL = true := by
  have kept : ITE_FLAG_NORMAL &&& ~~~ITE_STATE_MASK = ITE_FLAG_NORMAL := by decide
  have same : Flag.has (e.flag &&& ~~~ITE_STATE_MASK) ITE_FLAG_NORMAL =
      Flag.has e.flag ITE_FLAG_NORMAL := by
    unfold Flag.has
    rw [BitVec.and_assoc, BitVec.and_comm (~~~ITE_STATE_MASK), kept]
  unfold Ite.setState
  rw [Flag.has_or, same, normal, Bool.true_or]

theorem iteUnlinkNormal_name (e : Ite) : (iteUnlinkNormal e).name = e.name := by
  unfold iteUnlinkNormal
  simp only
  split_ifs <;> rfl

theorem iteUnlinkNormal_normal (e : Ite) (normal : Flag.has e.flag ITE_FLAG_NORMAL = true) :
    Flag.has (iteUnlinkNormal e).flag ITE_FLAG_NORMAL = true := by
  unfold iteUnlinkNormal
  simp only
  split_ifs
  · exact setState_normal _ _ normal
  · exact setState_normal _ _ normal

/-- Unlinking a normal file leaves the kind of the entry as it was. -/
theorem iteUnlinkNormal_ls (e : Ite) :
    Flag.has (iteUnlinkNormal e).flag ITE_FLAG_LS = Flag.has e.flag ITE_FLAG_LS := by
  have kept (state : U32) (other : Flag.has state ITE_FLAG_LS = false) :
      Flag.has ((e.flag &&& ~~~ITE_STATE_MASK) ||| state) ITE_FLAG_LS =
        Flag.has e.flag ITE_FLAG_LS := by
    have outside : ~~~ITE_STATE_MASK &&& ITE_FLAG_LS = ITE_FLAG_LS := by decide
    rw [Flag.has_or, other, Bool.or_false, Flag.has, BitVec.and_assoc, outside, Flag.has]
  unfold iteUnlinkNormal
  simp only
  split
  · exact kept ITE_UNLINKED (by decide)
  · exact kept ITE_SHADOW (by decide)

theorem iteUnlinkNormal_mdu (e : Ite) :
    (iteUnlinkNormal e).mdu = { e.mdu with nlink := e.mdu.nlink - 1 } := by
  unfold iteUnlinkNormal
  simp only
  split_ifs <;> rfl

/-- The state that an unlink leaves is UNLINKED exactly when the link was the last one. -/
theorem iteUnlinkNormal_state (e : Ite) :
    (iteUnlinkNormal e).state = if e.mdu.nlink = 1 then ITE_UNLINKED else ITE_SHADOW := by
  have last : (e.mdu.nlink - 1 == 0) = decide (e.mdu.nlink = 1) := by
    rw [Bool.eq_iff_iff, beq_iff_eq, decide_eq_true_iff, BitVec.sub_eq_iff_eq_add]
    rfl
  unfold iteUnlinkNormal
  simp only [last, decide_eq_true_eq]
  split_ifs
  · exact setState_state _ (by decide)
  · exact setState_state _ (by decide)

theorem mduReply_stored {e : Ite} {name : List U8} (stored : e.name = name ++ [0]) :
    mduReply e = nameReply name e.mdu := by
  unfold mduReply nameReply
  rw [stored]
  congr 1
  refine List.map_congr_left fun k _ => ?_
  by_cases low : k < name.length
  · exact List.getD_append _ _ _ _ low
  · rw [List.getD_append_right _ _ _ _ (by omega), List.getD_eq_default name 0 (by omega)]
    cases k - name.length <;> rfl

end Hvfs
