/-
This file determines for which requests `mds_symlink` stores the target.

The length of the target and the pointer to it share their place in the index.
The handler writes the pointer, and `ite_create` then takes it for the length:
it is above 16, so that nothing is copied and the field stays zero.
-/

import Hvfs.RequestBounds

namespace Hvfs

open LittleEndian

/-! ### The target -/

/-- A byte of the target that was sent, at `xm_data + sizeof(*hi) + hi->namelen`. -/
def RequestBuffer.target (r : RequestBuffer) (k : Nat) : U8 :=
  r.memory (r.behindName + BitVec.ofNat 64 k)

/-- `sizeof(mdu.symname)`. -/
def sizeofSymname : Nat := 16

/-- A target that fits is stored; for a longer one there is some target at least. -/
structure TargetStored (r : RequestBuffer) (symname : BitVec 128) : Prop where
  fits : r.header.dlen.toNat ≤ sizeofSymname →
    ∀ k < r.header.dlen.toNat, byteOf symname k = r.target k
  long : sizeofSymname < r.header.dlen.toNat → ∃ k < sizeofSymname, byteOf symname k ≠ 0

/-- The byte of the field in an `mdu` that was sent in the place of the target. -/
def RequestBuffer.mduTarget (r : RequestBuffer) (k : Nat) : U8 :=
  r.memory (r.behindName + BitVec.ofNat 64 (72 + k))

/-- The requests whose target is stored. Without INDEX_CREATE_COPY, and with the target at an
address above 16, these are those whose target fits and has only zero bytes. -/
def TargetSurvives (r : RequestBuffer) : Prop :=
  if Flag.has r.header.flag INDEX_CREATE_COPY then
    (r.header.dlen.toNat ≤ sizeofSymname →
      ∀ k < r.header.dlen.toNat, r.mduTarget k = r.target k) ∧
    (sizeofSymname < r.header.dlen.toNat → ∃ k < sizeofSymname, r.mduTarget k ≠ 0)
  else if Flag.has r.header.flag INDEX_CREATE_LINK ∨ sizeofSymname < r.behindName.toNat then
    r.header.dlen.toNat ≤ sizeofSymname ∧ ∀ k < r.header.dlen.toNat, r.target k = 0
  else
    (r.header.dlen.toNat ≤ sizeofSymname →
      ∀ k < r.header.dlen.toNat, r.behindName.toNat ≤ k → r.target k = 0) ∧
    (sizeofSymname < r.header.dlen.toNat → ∃ k < r.behindName.toNat, r.target k ≠ 0)

/-! ### What is stored -/

section Stored

variable {r : RequestBuffer} {hi : HvfsIndex} {hvfsHash : U64 → List U8 → U64}

/-- The bytes of a word that was read at an address. -/
theorem byteOf_readAt {address : U64} {count offset k : Nat} (inside : k < 16)
    (read : offset + 16 ≤ count) :
    byteOf (getWord 128 16 ((r.readAt address count).drop offset)) k =
      r.memory (address + BitVec.ofNat 64 (offset + k)) := by
  have here : offset + k < (r.readAt address count).length := by
    unfold RequestBuffer.readAt
    rw [List.length_map, List.length_range]
    omega
  rw [byteOf_getWord inside (Nat.le_refl _), List.getD_eq_getElem?_getD, List.getElem?_drop,
    List.getElem?_eq_getElem here, Option.getD_some]
  simp only [RequestBuffer.readAt, List.getElem_map, List.getElem_range]

/-- The field after `ite_create` of a request of `mds_symlink`. -/
theorem iteCreate_symname (found : r.index hvfsHash .symlink = some hi) (hmi : Hmi) :
    (iteCreate hi (newIte hmi hi).1).mdu.symname =
      if Flag.has r.header.flag INDEX_CREATE_COPY then (r.payload .symlink).mdu.symname
      else if Flag.has r.header.flag INDEX_CREATE_LINK ∨ sizeofSymname < r.behindName.toNat then 0
      else copySymname 0 (r.payload .symlink).symname r.behindName.toNat := by
  obtain ⟨_, flag, payload⟩ := index_some found
  have copy : Flag.has hi.flag INDEX_CREATE_COPY = Flag.has r.header.flag INDEX_CREATE_COPY := by
    rw [flag, RequestBuffer.flag, Flag.has_or]
    exact Bool.or_false _
  have link : Flag.has hi.flag INDEX_CREATE_LINK = Flag.has r.header.flag INDEX_CREATE_LINK := by
    rw [flag, RequestBuffer.flag, Flag.has_or]
    exact Bool.or_false _
  have symlink : Flag.has hi.flag INDEX_SYMLINK = true := by
    rw [flag, RequestBuffer.flag, Flag.has_or]
    exact Bool.or_true _
  have pointer : hi.data.ptr = r.behindName := by
    rw [payload]
    rfl
  unfold iteCreate
  simp only [copy, link, symlink, pointer, if_true]
  rw [← payload]
  by_cases copies : Flag.has r.header.flag INDEX_CREATE_COPY = true
  · rw [if_pos copies, if_pos copies]
  rw [if_neg copies, if_neg copies]
  by_cases links : Flag.has r.header.flag INDEX_CREATE_LINK = true
  · rw [if_pos links, if_pos (Or.inl links)]
    rfl
  rw [if_neg links]
  by_cases high : sizeofSymname < r.behindName.toNat
  · rw [if_pos (show r.behindName.toNat > 16 from high), if_pos (Or.inr high)]
    rfl
  · rw [if_neg (show ¬r.behindName.toNat > 16 from high), if_neg (not_or.mpr ⟨links, high⟩)]
    rfl

theorem byteOf_copySymname (data : BitVec 128) (len k : Nat) :
    byteOf (copySymname 0 data len) k = if k < len then byteOf data k else 0 := by
  unfold copySymname
  rw [show (0 : BitVec 128) &&& ~~~BitVec.ofNat 128 (2 ^ (8 * len) - 1) = 0#128 from
    BitVec.zero_and, BitVec.or_zero, byteOf_and_mask]

/-- The target is stored exactly for these requests. -/
theorem targetStored_iff (found : r.index hvfsHash .symlink = some hi) (hmi : Hmi) :
    TargetStored r (iteCreate hi (newIte hmi hi).1).mdu.symname ↔ TargetSurvives r := by
  rw [iteCreate_symname found]
  unfold TargetSurvives
  have size : sizeofSymname = 16 := rfl
  split_ifs with copies zero
  · have byte : ∀ k < 16, byteOf (r.payload .symlink).mdu.symname k = r.mduTarget k :=
      fun k inside => byteOf_readAt inside (by decide)
    constructor
    · intro stored
      refine ⟨fun fits k inside => ?_, fun long => ?_⟩
      · rw [← byte k (by omega)]
        exact stored.fits fits k inside
      · obtain ⟨k, inside, some⟩ := stored.long long
        exact ⟨k, inside, by rw [← byte k inside]; exact some⟩
    · rintro ⟨short, longer⟩
      refine ⟨fun fits k inside => ?_, fun long => ?_⟩
      · rw [byte k (by omega)]
        exact short fits k inside
      · obtain ⟨k, inside, some⟩ := longer long
        exact ⟨k, inside, by rw [byte k inside]; exact some⟩
  · constructor
    · intro stored
      have fits : r.header.dlen.toNat ≤ sizeofSymname := by
        refine Nat.not_lt.mp fun long => ?_
        obtain ⟨k, _, some⟩ := stored.long long
        exact some (byteOf_zero k)
      exact ⟨fits, fun k inside => (stored.fits fits k inside).symm.trans (byteOf_zero k)⟩
    · rintro ⟨fits, none⟩
      exact ⟨fun _ k inside => (byteOf_zero k).trans (none k inside).symm,
        fun long => absurd fits (Nat.not_le.mpr long)⟩
  · have byte : ∀ k < 16, byteOf (copySymname 0 (r.payload .symlink).symname r.behindName.toNat) k =
        if k < r.behindName.toNat then r.target k else 0 := by
      intro k inside
      rw [byteOf_copySymname]
      have read : byteOf (r.payload .symlink).symname k = r.target k := by
        have bytes := @byteOf_readAt r r.behindName 16 0 k inside (Nat.le_refl _)
        rw [List.drop_zero, Nat.zero_add] at bytes
        exact bytes
      rw [read]
    have low : r.behindName.toNat ≤ 16 := Nat.not_lt.mp (not_or.mp zero).2
    constructor
    · intro stored
      refine ⟨fun fits k inside above => ?_, fun long => ?_⟩
      · have same := stored.fits fits k inside
        rw [byte k (by omega), if_neg (Nat.not_lt.mpr above)] at same
        exact same.symm
      · obtain ⟨k, inside, some⟩ := stored.long long
        rw [byte k inside] at some
        split_ifs at some with below
        · exact ⟨k, below, some⟩
        · exact absurd rfl some
    · rintro ⟨short, longer⟩
      refine ⟨fun fits k inside => ?_, fun long => ?_⟩
      · rw [byte k (by omega)]
        split_ifs with below
        · rfl
        · exact (short fits k inside (Nat.not_lt.mp below)).symm
      · obtain ⟨k, below, some⟩ := longer long
        refine ⟨k, Nat.lt_of_lt_of_le below low, ?_⟩
        rw [byte k (Nat.lt_of_lt_of_le below low), if_pos below]
        exact some

end Stored

/-! ### The request -/

section Request

variable {i : Itb} {chain : Nat → List Nat} {hi : HvfsIndex}

/-- A search that creates an entry and succeeds leaves it as `ite_create` made it. -/
theorem itbSearchCow_created (shape : Shape i chain) (hmi : Hmi) (creates : Creates hi = true)
    (missing : (chain (hashSlot i hi.hash)).find? (i.matchAt hi) = none)
    {memory : Option (Nat → Ite)} {result : SearchResult}
    (ran : itbSearchCow hmi i hi memory = some result) (ok : result.err = 0) :
    result.itb.ite (findFirstZeroBit i.bitmap i.total) = iteCreate hi (newIte hmi hi).1 := by
  have alone : ∀ {block : Itb}, Shape block chain →
      (chain (hashSlot block hi.hash)).find? (block.matchAt hi) = none →
      itbSearch hmi block hi = some result →
      result.itb.ite (findFirstZeroBit block.bitmap block.total) =
        iteCreate hi (newIte hmi hi).1 := by
    intro block shape missing ran
    rw [itbSearch_eq shape, missing] at ran
    simp only [creates, if_true] at ran
    cases ran
    by_cases notFull : block.entries < (block.total : Int)
    · obtain ⟨after, chainAfter, result, _, _, ite⟩ := itbAddIte_first shape notFull hmi hi rfl
      rw [result, ite, Function.update_self]
    · rw [itbAddIte_full (not_lt.mp notFull)] at ok
      exact absurd ok (show (-ESPLIT : Int) ≠ 0 by decide)
  rw [itbSearchCow_eq] at ran
  rcases searchBlock_cases i hi memory with same | ⟨copied, same⟩
  · rw [same] at ran
    exact alone shape missing ran
  · rw [same] at ran
    have copy := @alone (itbCow i copied) (itbCow_shape shape copied)
      ((itbCow_find shape copied hi).trans missing) ran
    exact copy

/-- A symlink request that passes the checks of `mds_symlink`, finds no entry and succeeds has
created an entry; that entry has the target exactly if `TargetSurvives`. -/
theorem mds_symlink_target (r : RequestBuffer) (env : Environment) (chance : Chance) (m after : Mds)
    (accepted : handlerPlanOf r .symlink env chance = .search hi)
    (reached : reachItb env chance m hi = .ok i) (noReaddir : Flag.has hi.flag INDEX_BY_ITB = false)
    (shape : Shape i chain)
    (missing : (chain (hashSlot i hi.hash)).find? (i.matchAt hi) = none)
    (succeeded : serve env m (.search hi) chance = some (.replied 0, after)) :
    ∃ block, after.cbht (hi.puuid, hi.itbid) = some block ∧
      (TargetStored r (block.ite (findFirstZeroBit i.bitmap i.total)).mdu.symname ↔
        TargetSurvives r) := by
  have found : r.index env.hvfsHash .symlink = some hi := by
    unfold handlerPlanOf handlerPlan at accepted
    split_ifs at accepted
    split at accepted
    · cases accepted
    · rename_i index
      cases accepted
      exact index
  have creates : Creates hi = true := by
    obtain ⟨_, flag, _⟩ := index_some found
    unfold Creates
    rw [flag, RequestBuffer.flag, Flag.has_or]
    exact Bool.or_eq_true_iff.mpr (Or.inl (Bool.or_true _))
  simp only [serve, mdsCbhtSearch, reached, cbhtItbHit, noReaddir, Bool.false_eq_true, if_false,
    Option.map_map] at succeeded
  obtain ⟨result, ran, ended⟩ := Option.map_eq_some_iff.mp succeeded
  simp only [Function.comp_apply, Prod.mk.injEq, HandlerEnd.replied.injEq] at ended
  obtain ⟨noError, rfl⟩ := ended
  have ok : result.err = 0 := by
    split_ifs at noError with answered
    · exact answered.1
    · exact noError
  refine ⟨result.itb, Function.update_self _ _ _, ?_⟩
  rw [itbSearchCow_created shape m.hmi creates missing ran ok]
  exact targetStored_iff found m.hmi

end Request

/-- A request for a symlink `a` to the target `b/c`. -/
def symlinkRequest : RequestBuffer where
  memory address :=
    ((IndexHeader.mk 1 INDEX_BY_NAME 0 8 0 0 0 3).bytes ++ [97, 98, 47, 99]).getD
      (address - 4096).toNat 0
  base := 4096
  len := 60
  datacheck := true
  room := by decide

/-- A server without blocks on storage. -/
def emptyEnvironment : Environment := ⟨fun _ _ => 0, 3, fun _ => none⟩

/-- On an empty server the request creates an entry. -/
theorem symlinkRequest_served : ∃ hi,
    handlerPlanOf symlinkRequest .symlink emptyEnvironment {} = .search hi ∧
      symlinkRequest.index emptyEnvironment.hvfsHash .symlink = some hi ∧
      reachItb emptyEnvironment {} (Mds.init ⟨0, 0⟩) hi = .ok (emptyItb 3) ∧
      Flag.has hi.flag INDEX_BY_ITB = false ∧
      serve emptyEnvironment (Mds.init ⟨0, 0⟩) (.search hi) {} = some (.replied 0,
        ⟨(itbAddIte ⟨0, 0⟩ (emptyItb 3) hi).hmi, Function.update (fun _ => none)
          (hi.puuid, hi.itbid) (some (itbAddIte ⟨0, 0⟩ (emptyItb 3) hi).itb)⟩) := by
  have kept : ¬symlinkRequest.Dropped .symlink := by
    rintro ⟨_, zero⟩
    exact absurd zero (by decide)
  obtain ⟨hi, found⟩ : ∃ hi, symlinkRequest.index emptyEnvironment.hvfsHash .symlink = some hi :=
    index_exists kept
  obtain ⟨_, flag, _⟩ := index_some found
  have create : Flag.has hi.flag INDEX_CREATE = true := by
    rw [flag]
    decide
  have noReaddir : Flag.has hi.flag INDEX_BY_ITB = false := by
    rw [flag]
    decide
  have reached : reachItb emptyEnvironment {} (Mds.init ⟨0, 0⟩) hi = .ok (emptyItb 3) := by
    simp only [reachItb, Mds.init, emptyEnvironment, create, Bool.true_or, if_true]
  have alone : itbSearchCow ⟨0, 0⟩ (emptyItb 3) hi none = itbSearch ⟨0, 0⟩ (emptyItb 3) hi := rfl
  have ran : itbSearchCow ⟨0, 0⟩ (emptyItb 3) hi none =
      some (itbAddIte ⟨0, 0⟩ (emptyItb 3) hi) :=
    alone.trans (itbSearch_create (emptyItb_shape 3) ⟨0, 0⟩ List.find?_nil create)
  have ok : (itbAddIte ⟨0, 0⟩ (emptyItb 3) hi).err = 0 := by
    obtain ⟨_, _, _, result, _⟩ := itbAddIte_added (emptyItb_shape 3) (by decide) ⟨0, 0⟩ hi
    rw [result]
  refine ⟨hi, ?_, found, reached, noReaddir, ?_⟩
  · rw [handlerPlanOf_checked (by decide) rfl, found]
    rfl
  · simp only [serve, mdsCbhtSearch, reached, cbhtItbHit, noReaddir, Bool.false_eq_true, if_false]
    simp only [Mds.init, ran, Option.map_some, ok, Bool.true_eq_false, and_false, if_false]

/-- The target of the request fits and is not zero. -/
theorem symlinkRequest_lost : ¬TargetSurvives symlinkRequest := by
  have plain : ¬Flag.has symlinkRequest.header.flag INDEX_CREATE_COPY = true := by decide
  have high : sizeofSymname < symlinkRequest.behindName.toNat := by decide
  unfold TargetSurvives
  rw [if_neg plain, if_pos (Or.inr high)]
  intro zero
  exact absurd (zero.2 0 (by decide)) (by decide)

/-- The request is accepted, reaches an empty block and succeeds. -/
theorem mds_symlink_target_file : ∃ (hi : HvfsIndex) (after : Mds) (block : Itb),
    after.cbht (hi.puuid, hi.itbid) = some block ∧
      (TargetStored symlinkRequest
          (block.ite (findFirstZeroBit (emptyItb 3).bitmap (emptyItb 3).total)).mdu.symname ↔
        TargetSurvives symlinkRequest) := by
  obtain ⟨hi, accepted, _, reached, noReaddir, succeeded⟩ := symlinkRequest_served
  exact ⟨hi, _, mds_symlink_target symlinkRequest emptyEnvironment {} (Mds.init ⟨0, 0⟩) _ accepted
    reached noReaddir (emptyItb_shape 3) List.find?_nil succeeded⟩

/-- The request succeeds, and the entry has no target. -/
theorem mds_symlink_loses_target : ¬ ∀ (r : RequestBuffer) (env : Environment) (chance : Chance)
    (m after : Mds) (hi : HvfsIndex) (i : Itb) (chain : Nat → List Nat),
    1 ≤ r.header.dlen.toNat → handlerPlanOf r .symlink env chance = .search hi →
    reachItb env chance m hi = .ok i → Flag.has hi.flag INDEX_BY_ITB = false → Shape i chain →
    (chain (hashSlot i hi.hash)).find? (i.matchAt hi) = none →
    serve env m (.search hi) chance = some (.replied 0, after) →
    ∃ block, after.cbht (hi.puuid, hi.itbid) = some block ∧
      TargetStored r (block.ite (findFirstZeroBit i.bitmap i.total)).mdu.symname := by
  intro always
  obtain ⟨hi, accepted, found, reached, noReaddir, succeeded⟩ := symlinkRequest_served
  obtain ⟨block, here, stored⟩ := always symlinkRequest emptyEnvironment {} (Mds.init ⟨0, 0⟩) _ hi
    (emptyItb 3) _ (by decide) accepted reached noReaddir
    (emptyItb_shape 3) List.find?_nil succeeded
  obtain ⟨after, _, result, _, _, ite⟩ :=
    itbAddIte_first (emptyItb_shape 3) (by decide) ⟨0, 0⟩ hi rfl
  simp only [Function.update_self, Option.some_inj, result] at here
  rw [← here, ite, Function.update_self] at stored
  exact symlinkRequest_lost ((targetStored_iff found ⟨0, 0⟩).mp stored)

end Hvfs
