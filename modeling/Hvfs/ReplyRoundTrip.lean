/-
This file compares what a successful search lays out in its reply with what
`hmr_extract` finds there. The index always comes back. An ordinary entry comes
back unless its attribute flags say that it is a hard link target, or the search
never copied it; an entry that is a link source never comes back.
-/

import Hvfs.Reply

namespace Hvfs

open LittleEndian

/-! ### Reading back -/

theorem IndexHeader.bytes_length (header : IndexHeader) :
    header.bytes.length = sizeofHvfsIndex := by
  simp only [IndexHeader.bytes, List.length_append, putWord_length, sizeofHvfsIndex]

theorem Mdu.bytes_length (mdu : Mdu) : mdu.bytes.length = 88 := by
  simp only [Mdu.bytes, List.length_append, putWord_length]

theorem IndexHeader.read_bytes (header : IndexHeader) : IndexHeader.read header.bytes = header := by
  have last := getWord_putWord (show 2 ^ 64 ≤ 256 ^ 8 by decide) header.dlen []
  rw [List.append_nil] at last
  unfold IndexHeader.read IndexHeader.bytes
  simp (disch := decide) only [drop_putWord, getWord_putWord, Nat.reduceSub, List.drop_zero, last]

theorem LinkSource.read_bytes (ls : LinkSource) : LinkSource.read ls.bytes = ls := by
  have last := getWord_putWord (show 2 ^ 64 ≤ 256 ^ 8 by decide) ls.sUuid []
  rw [List.append_nil] at last
  unfold LinkSource.read LinkSource.bytes
  simp (disch := decide) only [drop_putWord, getWord_putWord, Nat.reduceSub, List.drop_zero, last]

theorem Mdu.read_bytes (mdu : Mdu) (rest : List U8) : Mdu.read (mdu.bytes ++ rest) = mdu := by
  unfold Mdu.read Mdu.bytes
  simp (disch := decide) only [List.append_assoc, drop_putWord, getWord_putWord, Nat.reduceSub,
    List.drop_zero]

theorem MduReply.read_bytes (reply : MduReply) : MduReply.read reply.bytes = reply := by
  have front : (reply.mdu.bytes ++ reply.tail).drop 88 = reply.tail :=
    List.drop_left' reply.mdu.bytes_length
  unfold MduReply.read MduReply.bytes
  rw [Mdu.read_bytes, front]

/-- The first bytes of an `mdu` are its link source. -/
theorem Mdu.take_bytes (mdu : Mdu) : mdu.bytes.take sizeofLinkSource = mdu.ls.bytes := by
  have low : putWord 4 (mdu.nlink ++ mdu.mode) = putWord 2 mdu.mode ++ putWord 2 mdu.nlink :=
    putWord_append (by decide) 2 mdu.nlink mdu.mode
  have joined : putWord 8 mdu.ls.sUuid =
      putWord 2 mdu.mode ++ (putWord 2 mdu.nlink ++ putWord 4 mdu.uid) := by
    rw [← List.append_assoc, ← low]
    exact putWord_append (by decide) 4 mdu.uid (mdu.nlink ++ mdu.mode)
  have split : mdu.bytes = mdu.ls.bytes ++ mdu.bytes.drop sizeofLinkSource := by
    have ls : mdu.ls.bytes = putWord 8 mdu.size ++ (putWord 8 mdu.dev ++ (putWord 2 mdu.mode ++
        (putWord 2 mdu.nlink ++ putWord 4 mdu.uid))) := by
      rw [← joined]
      rfl
    rw [ls]
    unfold Mdu.bytes sizeofLinkSource
    simp (disch := decide) only [List.append_assoc, drop_putWord, Nat.reduceSub, List.drop_zero]
  rw [split]
  refine List.take_left' ?_
  simp only [LinkSource.bytes, List.length_append, putWord_length, sizeofLinkSource]

/-- A link source written over an `mdu` is read back. -/
theorem Mdu.ls_setLs (mdu : Mdu) (ls : LinkSource) : (mdu.setLs ls).ls = ls := by
  have parts : ls.sUuid.extractLsb' 32 32 ++ (ls.sUuid.extractLsb' 16 16 ++
      ls.sUuid.extractLsb' 0 16) = ls.sUuid := by
    refine BitVec.eq_of_getLsbD_eq fun bit bound => ?_
    rw [BitVec.getLsbD_append, BitVec.getLsbD_append]
    simp only [BitVec.getLsbD_extractLsb']
    grind
  exact congrArg (LinkSource.mk ls.sHash ls.sPuuid) parts

theorem mduReply_length (e : Ite) : (mduReply e).bytes.length = HVFS_MDU_SIZE := by
  unfold mduReply MduReply.bytes
  rw [List.length_append, Mdu.bytes_length, List.length_map, List.length_range]
  rfl

/-! ### The regions of a reply -/

section Regions

variable (context : ReplyContext) (hi : HvfsIndex) {mduRpy : List U8}

/-- What a search that wrote `mduRpy` sends. -/
def searchReply (mduRpy : List U8) : MdReply := sendReply (fillReply context hi mduRpy getHmr)

/-- The flag word of a reply, by what the search found. -/
def replyFlag (readdir dir target : Bool) : U32 :=
  let flag : U32 := if readdir then 0 ||| MD_REPLY_READDIR else 0
  let flag := if dir then flag ||| MD_REPLY_DIR_SDT else flag
  (if target then flag ||| MD_REPLY_WITH_LS else flag ||| MD_REPLY_WITH_MDU) ||| MD_REPLY_WITH_HI

theorem replyFlag_regions (readdir dir target : Bool) :
    Flag.has (replyFlag readdir dir target) MD_REPLY_WITH_HI = true ∧
      Flag.has (replyFlag readdir dir target) MD_REPLY_WITH_MDU = !target ∧
      Flag.has (replyFlag readdir dir target) MD_REPLY_WITH_LS = target ∧
      Flag.has (replyFlag readdir dir target) MD_REPLY_WITH_BITMAP = false := by
  revert readdir dir target
  decide

/-- The regions of a reply: always the index, and either the `mdu` or the link source. -/
theorem searchReply_flags (mduRpy : List U8) :
    Flag.has (searchReply context hi mduRpy).flag MD_REPLY_WITH_HI = true ∧
      Flag.has (searchReply context hi mduRpy).flag MD_REPLY_WITH_MDU =
        !Flag.has (Mdu.read mduRpy).flags HVFS_MDU_IF_LINKT ∧
      Flag.has (searchReply context hi mduRpy).flag MD_REPLY_WITH_LS =
        Flag.has (Mdu.read mduRpy).flags HVFS_MDU_IF_LINKT ∧
      Flag.has (searchReply context hi mduRpy).flag MD_REPLY_WITH_BITMAP = false := by
  have word : (searchReply context hi mduRpy).flag =
      replyFlag (Flag.has hi.flag INDEX_BY_ITB)
        (sIsDir (Mdu.read mduRpy).mode && hi.puuid != context.gdtUuid)
        (Flag.has (Mdu.read mduRpy).flags HVFS_MDU_IF_LINKT) := by
    cases target : Flag.has (Mdu.read mduRpy).flags HVFS_MDU_IF_LINKT with
    | false =>
      simp only [searchReply, sendReply, fillReply, target, Bool.false_eq_true, if_false]
      rfl
    | true =>
      simp only [searchReply, sendReply, fillReply, target, if_true]
      rfl
  rw [word]
  exact replyFlag_regions _ _ _

/-- The reply of an entry that is no hard link target holds the index and the `mdu`. -/
theorem searchReply_mdu (length : mduRpy.length = HVFS_MDU_SIZE)
    (plain : Flag.has (Mdu.read mduRpy).flags HVFS_MDU_IF_LINKT = false) :
    (searchReply context hi mduRpy).mduNo = 1 ∧
      (searchReply context hi mduRpy).len = sizeofHvfsIndex + HVFS_MDU_SIZE ∧
      (searchReply context hi mduRpy).data = (hi.header context.psalt).bytes ++ mduRpy := by
  have whole : mduRpy.take HVFS_MDU_SIZE = mduRpy := List.take_of_length_le (Nat.le_of_eq length)
  have size : ((hi.header context.psalt).bytes ++ mduRpy).length =
      sizeofHvfsIndex + HVFS_MDU_SIZE := by
    rw [List.length_append, length, IndexHeader.bytes_length]
  unfold searchReply sendReply fillReply getHmr
  simp only [plain, Bool.false_eq_true, if_false, whole]
  exact ⟨trivial, rfl, List.take_of_length_le (Nat.le_of_eq size)⟩

/-- The reply of a hard link target holds the index and a link source, which it does not count. -/
theorem searchReply_ls (length : mduRpy.length = HVFS_MDU_SIZE)
    (target : Flag.has (Mdu.read mduRpy).flags HVFS_MDU_IF_LINKT = true) :
    (searchReply context hi mduRpy).lsNo = 0 ∧
      (searchReply context hi mduRpy).len = sizeofHvfsIndex + sizeofLinkSource ∧
      (searchReply context hi mduRpy).data =
        (hi.header context.psalt).bytes ++ mduRpy.take sizeofLinkSource := by
  have front : (mduRpy.take sizeofLinkSource).length = sizeofLinkSource := by
    rw [List.length_take, length]
    rfl
  have size : ((hi.header context.psalt).bytes ++ mduRpy.take sizeofLinkSource).length =
      sizeofHvfsIndex + sizeofLinkSource := by
    rw [List.length_append, front, IndexHeader.bytes_length]
  unfold searchReply sendReply fillReply getHmr
  simp only [target, if_true]
  exact ⟨trivial, rfl, List.take_of_length_le (Nat.le_of_eq size)⟩

/-- The index of a reply comes back. -/
theorem searchReply_index (length : mduRpy.length = HVFS_MDU_SIZE) :
    hmrExtract (searchReply context hi mduRpy) EXTRACT_HI = some (1, 0) ∧
      ((searchReply context hi mduRpy).region 0 sizeofHvfsIndex).map IndexHeader.read =
        some (hi.header context.psalt) := by
  obtain ⟨withHi, -⟩ := searchReply_flags context hi mduRpy
  constructor
  · unfold hmrExtract
    rw [if_pos (by decide), if_pos withHi]
  · obtain ⟨rest, data, long⟩ : ∃ rest,
        (searchReply context hi mduRpy).data = (hi.header context.psalt).bytes ++ rest ∧
        (sizeofHvfsIndex : Int) ≤ (searchReply context hi mduRpy).len := by
      by_cases target : Flag.has (Mdu.read mduRpy).flags HVFS_MDU_IF_LINKT = true
      · obtain ⟨_, len, data⟩ := searchReply_ls context hi length target
        exact ⟨_, data, len ▸ by decide⟩
      · obtain ⟨_, len, data⟩ := searchReply_mdu context hi length (Bool.not_eq_true _ ▸ target)
        exact ⟨_, data, len ▸ by decide⟩
    unfold MdReply.region
    rw [if_pos ⟨le_refl 0, by rwa [Int.zero_add]⟩, data, Int.toNat_zero, List.drop_zero,
      List.take_left' (IndexHeader.bytes_length _), Option.map_some, IndexHeader.read_bytes]

/-- The `mdu` of a reply comes back when the entry is no hard link target. -/
theorem searchReply_extractMdu (length : mduRpy.length = HVFS_MDU_SIZE)
    (plain : Flag.has (Mdu.read mduRpy).flags HVFS_MDU_IF_LINKT = false) :
    hmrExtract (searchReply context hi mduRpy) EXTRACT_MDU = some (1, (sizeofHvfsIndex : Int)) ∧
      (searchReply context hi mduRpy).region sizeofHvfsIndex HVFS_MDU_SIZE = some mduRpy ∧
      hmrExtract (searchReply context hi mduRpy) EXTRACT_LS = none := by
  obtain ⟨withHi, withMdu, withLs, -⟩ := searchReply_flags context hi mduRpy
  obtain ⟨mduNo, len, data⟩ := searchReply_mdu context hi length plain
  rw [plain, Bool.not_false] at withMdu
  rw [plain] at withLs
  refine ⟨?_, ?_, ?_⟩
  · unfold hmrExtract
    rw [if_neg (by decide), if_pos (by decide), if_pos withMdu, if_pos withHi, mduNo]
    rfl
  · unfold MdReply.region
    rw [if_pos ⟨Int.natCast_nonneg _, Int.le_of_eq len.symm⟩, data, Int.toNat_natCast,
      List.drop_left' (IndexHeader.bytes_length _), List.take_of_length_le (Nat.le_of_eq length)]
  · unfold hmrExtract
    rw [if_neg (by decide), if_neg (by decide), if_pos (by decide), withLs]
    rfl

/-- The reply of a hard link target has no `mdu`. -/
theorem searchReply_noMdu (target : Flag.has (Mdu.read mduRpy).flags HVFS_MDU_IF_LINKT = true) :
    hmrExtract (searchReply context hi mduRpy) EXTRACT_MDU = none := by
  obtain ⟨-, withMdu, -, -⟩ := searchReply_flags context hi mduRpy
  rw [target] at withMdu
  unfold hmrExtract
  rw [if_neg (by decide), if_pos (by decide), withMdu]
  rfl

/-- The link source of a hard link target comes back, but with a count of 0. -/
theorem searchReply_extractLs (reply : MduReply) (length : reply.bytes.length = HVFS_MDU_SIZE)
    (target : Flag.has reply.mdu.flags HVFS_MDU_IF_LINKT = true) :
    hmrExtract (searchReply context hi reply.bytes) EXTRACT_LS =
        some (0, (sizeofHvfsIndex : Int)) ∧
      ((searchReply context hi reply.bytes).region sizeofHvfsIndex sizeofLinkSource).map
        LinkSource.read = some reply.mdu.ls := by
  have front : reply.bytes.take sizeofLinkSource = reply.mdu.ls.bytes := by
    rw [MduReply.bytes, List.take_append_of_le_length (by rw [Mdu.bytes_length]; decide),
      Mdu.take_bytes]
  have size : (reply.mdu.ls.bytes).length = sizeofLinkSource := by
    simp only [LinkSource.bytes, List.length_append, putWord_length, sizeofLinkSource]
  have flags : Flag.has (Mdu.read reply.bytes).flags HVFS_MDU_IF_LINKT = true := by
    rw [MduReply.bytes, Mdu.read_bytes, target]
  obtain ⟨withHi, withMdu, withLs, -⟩ := searchReply_flags context hi reply.bytes
  obtain ⟨lsNo, len, data⟩ := searchReply_ls context hi length flags
  rw [flags, Bool.not_true] at withMdu
  constructor
  · unfold hmrExtract
    rw [if_neg (by decide), if_neg (by decide), if_pos (by decide), withLs, if_pos flags, lsNo,
      withHi, withMdu]
    rfl
  · unfold MdReply.region
    rw [if_pos ⟨Int.natCast_nonneg _, Int.le_of_eq len.symm⟩, data, Int.toNat_natCast,
      List.drop_left' (IndexHeader.bytes_length _), front,
      List.take_of_length_le (Nat.le_of_eq size), Option.map_some, LinkSource.read_bytes]

/-- No reply counts a link source. -/
theorem searchReply_noLs (length : mduRpy.length = HVFS_MDU_SIZE) (offset : Int) :
    hmrExtract (searchReply context hi mduRpy) EXTRACT_LS ≠ some (1, offset) := by
  intro extracted
  by_cases target : Flag.has (Mdu.read mduRpy).flags HVFS_MDU_IF_LINKT = true
  · obtain ⟨-, -, withLs, -⟩ := searchReply_flags context hi mduRpy
    obtain ⟨lsNo, -, -⟩ := searchReply_ls context hi length target
    unfold hmrExtract at extracted
    rw [if_neg (by decide), if_neg (by decide), if_pos (by decide), withLs, if_pos target,
      lsNo] at extracted
    exact absurd (congrArg Prod.fst (Option.some.inj extracted))
      (show (0 : U16).toInt ≠ 1 by decide)
  · obtain ⟨-, -, none⟩ := searchReply_extractMdu context hi length (Bool.not_eq_true _ ▸ target)
    rw [none] at extracted
    cases extracted

end Regions

/-! ### The entry that a search serves -/

/-- The entry that a search serves, as the search leaves it; one that is deleted, as it was. -/
def servedIte (hmi : Hmi) (i : Itb) (hi : HvfsIndex) : Option Ite :=
  (itbFind i hi (2 * i.total + 1) (hashSlot i hi.hash)).map fun found =>
    match found with
    | none => iteCreate hi (newIte hmi hi).1
    | some cell =>
      let e := i.ite (i.index cell).entry
      match planFound i hi cell with
      | .dirty (.update _) => iteUpdate hi e
      | .dirty (.linkAdd _) => { e with mdu := { e.mdu with nlink := e.mdu.nlink + 1 } }
      | .dirty (.unlink _) => if Flag.has e.flag ITE_FLAG_NORMAL then iteUnlinkNormal e else e
      | _ => e

/-- A plan for a cell acts on that cell. -/
theorem planFound_cell {i : Itb} {hi : HvfsIndex} {cell : Nat} {act : SearchAct}
    (plan : planFound i hi cell = .dirty act) :
    act = .update cell ∨ act = .unlink cell ∨ act = .linkAdd cell := by
  unfold planFound at plan
  grind

/-- A plan that returns hands out the entry or nothing. -/
theorem planFound_data {i : Itb} {hi : HvfsIndex} {cell : Nat} {err : Int}
    {data : Option MduReply} (plan : planFound i hi cell = .done err data) :
    data = none ∨ data = some (mduReply (i.ite (i.index cell).entry)) := by
  unfold planFound at plan
  grind

/-- A new entry is created as `ite_create` leaves it. -/
theorem itbAddIte_data {hmi : Hmi} {i : Itb} {hi : HvfsIndex}
    (ok : (itbAddIte hmi i hi).err = 0) :
    (itbAddIte hmi i hi).data = some (mduReply (iteCreate hi (newIte hmi hi).1)) := by
  unfold itbAddIte at ok ⊢
  simp only at ok ⊢
  split at ok
  · rename_i room
    rw [if_pos room]
    split at ok
    · rename_i free
      rw [if_pos free]
      simp only [Itb.setIte, Function.update_self]
    · exact absurd ok (show (-EINVAL : Int) ≠ 0 by decide)
  · exact absurd ok (show (-ESPLIT : Int) ≠ 0 by decide)

/-- The unlinked entry is read at its own cell. -/
theorem iteUnlink_data {i after : Itb} {cell pos : Nat} (ran : iteUnlink i cell pos = some after)
    (plain : Flag.has (i.ite (i.index cell).entry).flag ITE_FLAG_LS = false) :
    after.ite (after.index cell).entry =
      if Flag.has (i.ite (i.index cell).entry).flag ITE_FLAG_NORMAL then
        iteUnlinkNormal (i.ite (i.index cell).entry)
      else i.ite (i.index cell).entry := by
  unfold iteUnlink at ran
  by_cases normal : Flag.has (i.ite (i.index cell).entry).flag ITE_FLAG_NORMAL = true
  · rw [if_pos normal] at ran ⊢
    obtain rfl := Option.some.inj ran
    simp only [Itb.setIte, Function.update_self]
  · rw [if_neg normal, plain] at ran
    rw [if_neg normal]
    obtain rfl := Option.some.inj ran
    rfl

/-- What a search copies is the `mdu` of an entry. -/
theorem itbSearch_data {hmi : Hmi} {i : Itb} {hi : HvfsIndex} {result : SearchResult}
    (ran : itbSearch hmi i hi = some result) :
    result.data = none ∨ ∃ e, result.data = some (mduReply e) := by
  unfold itbSearch itbPlan at ran
  cases walk : itbFind i hi (2 * i.total + 1) (hashSlot i hi.hash) with
  | none => rw [walk] at ran; cases ran
  | some found =>
    rw [walk] at ran
    cases found with
    | none =>
      simp only [planMissing] at ran
      split at ran
      · cases ran
      · rename_i plan
        split at plan
        · cases plan
        · obtain ⟨_, rfl⟩ := SearchPlan.done.inj (Option.some.inj plan)
          obtain rfl := Option.some.inj ran
          exact Or.inl rfl
      · rename_i plan
        split at plan
        · obtain rfl := SearchPlan.dirty.inj (Option.some.inj plan)
          obtain rfl := Option.some.inj ran
          unfold itbAddIte
          simp only
          split
          · split
            · exact Or.inr ⟨_, rfl⟩
            · exact Or.inl rfl
          · exact Or.inl rfl
        · cases plan
    | some cell =>
      simp only at ran
      cases next : planFound i hi cell with
      | done err data =>
        rw [next] at ran
        obtain rfl := Option.some.inj ran
        exact (planFound_data next).imp id fun copied => ⟨_, copied⟩
      | dirty act =>
        rw [next] at ran
        rcases planFound_cell next with rfl | rfl | rfl
        · obtain rfl := Option.some.inj ran
          exact Or.inr ⟨_, rfl⟩
        · simp only [itbAct] at ran
          split at ran
          · cases ran
          · obtain rfl := Option.some.inj ran
            exact Or.inr ⟨_, rfl⟩
        · obtain rfl := Option.some.inj ran
          exact Or.inr ⟨_, rfl⟩

/-- A successful search of an entry that is no link source copies the entry, unless the request
forces a creation that changes nothing. -/
theorem itbSearch_served {hmi : Hmi} {i : Itb} {hi : HvfsIndex} {result : SearchResult}
    (ran : itbSearch hmi i hi = some result) (ok : result.err = 0) :
    ∃ e, servedIte hmi i hi = some e ∧ (Flag.has e.flag ITE_FLAG_LS = false →
      result.data =
        if itbPlan i hi = some (.done 0 none) then none else some (mduReply e)) := by
  have served : ∀ found, itbFind i hi (2 * i.total + 1) (hashSlot i hi.hash) = some found →
      servedIte hmi i hi = (some found).map _ := fun found walk => by rw [servedIte, walk]
  cases walk : itbFind i hi (2 * i.total + 1) (hashSlot i hi.hash) with
  | none => simp only [itbSearch, itbPlan, walk] at ran; cases ran
  | some found =>
    cases found with
    | none =>
      refine ⟨_, served _ walk, fun _ => ?_⟩
      have plan : itbPlan i hi = some (planMissing hi) := by simp only [itbPlan, walk]
      rw [itbSearch, plan] at ran
      unfold planMissing at ran plan
      by_cases creates : (Flag.has hi.flag INDEX_CREATE || Flag.has hi.flag INDEX_SYMLINK) = true
      · rw [if_pos creates] at ran plan
        obtain rfl := Option.some.inj ran
        rw [plan, if_neg (by simp only [Option.some.injEq, reduceCtorEq, not_false_eq_true])]
        exact itbAddIte_data ok
      · rw [if_neg creates] at ran
        obtain rfl := Option.some.inj ran
        exact absurd ok (show (-ENOENT : Int) ≠ 0 by decide)
    | some cell =>
      refine ⟨_, served _ walk, fun plain => ?_⟩
      have plan : itbPlan i hi = some (planFound i hi cell) := by simp only [itbPlan, walk]
      rw [itbSearch, plan] at ran
      rw [plan]
      simp only at plain ⊢
      cases next : planFound i hi cell with
      | done err data =>
        rw [next] at ran plain
        obtain rfl := Option.some.inj ran
        simp only at ok plain ⊢
        subst ok
        rcases planFound_data next with rfl | rfl
        · rw [if_pos rfl]
        · rw [if_neg (by simp only [Option.some.injEq, SearchPlan.done.injEq, reduceCtorEq,
            and_false, not_false_eq_true])]
      | dirty act =>
        rw [next] at ran plain
        rw [if_neg (by simp only [Option.some.injEq, reduceCtorEq, not_false_eq_true])]
        rcases planFound_cell next with rfl | rfl | rfl
        · obtain rfl := Option.some.inj ran
          simp only [Itb.setIte, Function.update_self]
        · simp only [itbAct] at ran
          cases unlinked : iteUnlink i cell (hashSlot i hi.hash) with
          | none => rw [unlinked] at ran; cases ran
          | some after =>
            rw [unlinked] at ran
            obtain rfl := Option.some.inj ran
            have kind : Flag.has (i.ite (i.index cell).entry).flag ITE_FLAG_LS = false := by
              simp only at plain
              split at plain
              · rwa [iteUnlinkNormal_ls] at plain
              · exact plain
            exact congrArg (fun e => some (mduReply e)) (iteUnlink_data unlinked kind)
        · obtain rfl := Option.some.inj ran
          simp only [Itb.setIte, Function.update_self]

/-! ### The round trip -/

/-- `hmr_extract` gives back what was put in: the index; for an ordinary entry its `mdu` and no
link source, for a link source the other way round; and no bitmap. A region is only read within
the length of the data. -/
structure RoundTrip (header : IndexHeader) (served : Option Ite) (reply : MdReply) : Prop where
  index : ∃ offset, hmrExtract reply EXTRACT_HI = some (1, offset) ∧
    (reply.region offset sizeofHvfsIndex).map IndexHeader.read = some header
  mdu : ∀ e ∈ served, Flag.has e.flag ITE_FLAG_LS = false →
    (∃ offset, hmrExtract reply EXTRACT_MDU = some (1, offset) ∧
      (reply.region offset HVFS_MDU_SIZE).map MduReply.read = some (mduReply e)) ∧
    hmrExtract reply EXTRACT_LS = none
  ls : ∀ e ∈ served, Flag.has e.flag ITE_FLAG_LS = true →
    (∃ offset, hmrExtract reply EXTRACT_LS = some (1, offset) ∧
      (reply.region offset sizeofLinkSource).map LinkSource.read = some e.mdu.ls) ∧
    hmrExtract reply EXTRACT_MDU = none
  bitmap : hmrExtract reply EXTRACT_BITMAP = none

/-- The entry that a request is served on; reading a directory serves none. -/
def servedEntry (chance : Chance) (hmi : Hmi) (i : Itb) (hi : HvfsIndex) : Option Ite :=
  if Flag.has hi.flag INDEX_BY_ITB then none else servedIte hmi (searchBlock i hi chance.memory) hi

/-- What a request and its entry are like when the reply holds them: the request does not read a
directory, the entry is no link source and no hard link target, and it was copied, or the buffer
held its bytes before. -/
structure RepliesWhole (context : ReplyContext) (chance : Chance) (hmi : Hmi) (i : Itb)
    (hi : HvfsIndex) : Prop where
  searches : Flag.has hi.flag INDEX_BY_ITB = false
  ordinary : ∀ e ∈ servedEntry chance hmi i hi, Flag.has e.flag ITE_FLAG_LS = false
  noTarget : ∀ e ∈ servedEntry chance hmi i hi, Flag.has e.mdu.flags HVFS_MDU_IF_LINKT = false
  copied : ∀ e ∈ servedEntry chance hmi i hi,
    itbPlan (searchBlock i hi chance.memory) hi = some (.done 0 none) →
      MduReply.read context.stack = mduReply e

section Trip

variable {context : ReplyContext} {chance : Chance} {hmi : Hmi} {i : Itb} {hi : HvfsIndex}
  {hmr : MdReply}

/-- The reply is filled next to the search; its outcome is the search's. -/
theorem cbhtItbHitReply_err (context : ReplyContext) (chance : Chance) (hmi : Hmi) (i : Itb)
    (hi : HvfsIndex) (hmr : MdReply) :
    (cbhtItbHitReply context chance hmi i hi hmr).map Prod.fst =
      (cbhtItbHit chance hmi i hi).map fun outcome => outcome.1 := by
  unfold cbhtItbHitReply cbhtItbHit
  split
  · rfl
  · rw [Option.map_map, Option.map_map]
    refine congrArg (fun err => (itbSearchCow hmi i hi chance.memory).map err) (funext ?_)
    intro result
    simp only [Function.comp_apply]
    cases chance.replyData <;> by_cases ok : result.err = 0 <;> simp [ok]

/-- A successful request that searches sends what it found in `mdu_rpy`. -/
theorem cbhtItbHitReply_search (searches : Flag.has hi.flag INDEX_BY_ITB = false)
    (ran : cbhtItbHitReply context chance hmi i hi getHmr = some (0, hmr)) :
    ∃ e mduRpy, servedEntry chance hmi i hi = some e ∧ mduRpy.length = HVFS_MDU_SIZE ∧
      sendReply hmr = searchReply context hi mduRpy ∧
      (Flag.has e.flag ITE_FLAG_LS = false →
        mduRpy = if itbPlan (searchBlock i hi chance.memory) hi = some (.done 0 none)
          then context.stack else (mduReply e).bytes) := by
  unfold cbhtItbHitReply at ran
  rw [if_neg (by rw [searches]; exact Bool.false_ne_true), itbSearchCow_eq] at ran
  obtain ⟨result, search, reply⟩ := Option.map_eq_some_iff.mp ran
  by_cases ok : result.err = 0
  · rw [if_pos ok] at reply
    simp only at reply
    split at reply
    · obtain ⟨e, served, data⟩ := itbSearch_served search ok
      refine ⟨e, _, ?_, ?_, congrArg sendReply (congrArg Prod.snd reply).symm, fun plain => ?_⟩
      · rw [servedEntry, if_neg (by rw [searches]; exact Bool.false_ne_true), served]
      · rcases itbSearch_data search with copied | ⟨copy, copied⟩
        · rw [copied]
          exact context.stackLength
        · rw [copied]
          exact mduReply_length copy
      · rw [data plain]
        split <;> rfl
    · exact absurd (congrArg Prod.fst reply) (show (-ENOMEM : Int) ≠ 0 by decide)
  · rw [if_neg ok] at reply
    exact absurd (congrArg Prod.fst reply) ok

/-- A reply that is not about a link source comes back if its bytes are the entry's and do not say
that it is a hard link target. -/
theorem searchReply_roundTrip {e : Ite} {mduRpy : List U8}
    (length : mduRpy.length = HVFS_MDU_SIZE) :
    RoundTrip (hi.header context.psalt) (some e) (searchReply context hi mduRpy) ↔
      Flag.has e.flag ITE_FLAG_LS = false ∧ MduReply.read mduRpy = mduReply e ∧
        Flag.has e.mdu.flags HVFS_MDU_IF_LINKT = false := by
  constructor
  · intro trip
    have ordinary : Flag.has e.flag ITE_FLAG_LS = false := by
      by_contra source
      obtain ⟨⟨offset, extracted, -⟩, -⟩ := trip.ls e rfl (Bool.not_eq_false _ ▸ source)
      exact searchReply_noLs context hi length offset extracted
    obtain ⟨⟨offset, extracted, region⟩, -⟩ := trip.mdu e rfl ordinary
    have plain : Flag.has (Mdu.read mduRpy).flags HVFS_MDU_IF_LINKT = false := by
      by_contra target
      rw [searchReply_noMdu context hi (Bool.not_eq_false _ ▸ target)] at extracted
      cases extracted
    obtain ⟨found, whole, -⟩ := searchReply_extractMdu context hi length plain
    obtain rfl : offset = sizeofHvfsIndex :=
      congrArg Prod.snd (Option.some.inj (extracted.symm.trans found))
    have same : MduReply.read mduRpy = mduReply e := by
      rw [whole] at region
      exact Option.some.inj region
    have flags : (Mdu.read mduRpy).flags = e.mdu.flags :=
      congrArg (fun reply => reply.mdu.flags) same
    exact ⟨ordinary, same, flags ▸ plain⟩
  · rintro ⟨ordinary, same, notTarget⟩
    have flags : (Mdu.read mduRpy).flags = e.mdu.flags :=
      congrArg (fun reply => reply.mdu.flags) same
    have plain : Flag.has (Mdu.read mduRpy).flags HVFS_MDU_IF_LINKT = false := flags ▸ notTarget
    obtain ⟨-, -, -, noBitmap⟩ := searchReply_flags context hi mduRpy
    obtain ⟨found, whole, noLs⟩ := searchReply_extractMdu context hi length plain
    obtain ⟨index, header⟩ := searchReply_index context hi length
    refine ⟨⟨0, index, header⟩, fun entry served _ => ?_, fun entry served source => ?_, ?_⟩
    · obtain rfl := Option.some.inj served
      exact ⟨⟨_, found, by rw [whole, Option.map_some, same]⟩, noLs⟩
    · obtain rfl := Option.some.inj served
      rw [ordinary] at source
      cases source
    · unfold hmrExtract
      rw [if_neg (by decide), if_neg (by decide), if_neg (by decide), if_pos (by decide),
        noBitmap]
      rfl

/-- A successful request gets back what was put into its reply exactly if it searches, its entry
is neither a link source nor marked as a hard link target, and the entry was copied. -/
theorem reply_round_trip_iff (context : ReplyContext) (chance : Chance) (hmi : Hmi) (i : Itb)
    (hi : HvfsIndex) (hmr : MdReply)
    (ran : cbhtItbHitReply context chance hmi i hi getHmr = some (0, hmr)) :
    RoundTrip (hi.header context.psalt) (servedEntry chance hmi i hi) (sendReply hmr) ↔
      RepliesWhole context chance hmi i hi := by
  by_cases readdir : Flag.has hi.flag INDEX_BY_ITB = true
  · have empty : hmr = getHmr := by
      rw [cbhtItbHitReply, if_pos readdir] at ran
      exact (congrArg Prod.snd (Option.some.inj ran)).symm
    constructor
    · intro trip
      obtain ⟨offset, extracted, -⟩ := trip.index
      rw [empty, show hmrExtract (sendReply getHmr) EXTRACT_HI = none by decide] at extracted
      cases extracted
    · intro whole
      rw [whole.searches] at readdir
      cases readdir
  · have searches : Flag.has hi.flag INDEX_BY_ITB = false := Bool.not_eq_true _ ▸ readdir
    obtain ⟨e, mduRpy, served, length, sent, bytes⟩ := cbhtItbHitReply_search searches ran
    rw [sent, served, searchReply_roundTrip length]
    constructor
    · rintro ⟨ordinary, same, notTarget⟩
      refine ⟨searches, ?_, ?_, ?_⟩ <;> intro entry isServed <;>
        obtain rfl := Option.some.inj (served.symm.trans isServed)
      · exact ordinary
      · exact notTarget
      · intro uncopied
        rwa [bytes ordinary, if_pos uncopied] at same
    · intro whole
      have ordinary := whole.ordinary e served
      refine ⟨ordinary, ?_, whole.noTarget e served⟩
      rw [bytes ordinary]
      split
      · rename_i uncopied
        exact whole.copied e served uncopied
      · exact MduReply.read_bytes (mduReply e)

end Trip

/-! ### Two requests -/

def zeroContext : ReplyContext where
  gdtUuid := 0
  psalt := 0
  stack := List.replicate HVFS_MDU_SIZE 0
  stackLength := List.length_replicate

/-- A request for the name of one letter. -/
def nameIndex (flag : U32) : HvfsIndex where
  flag := flag
  uuid := 0
  hash := 0
  itbid := 0
  puuid := 0
  data := ⟨4096, none, {}, ⟨1, 2, 3⟩, 0⟩
  name := [97]

/-- The rule at the creation of a normal file. -/
theorem reply_round_trip_iff_create :
    ∃ hmr, cbhtItbHitReply zeroContext {} ⟨0, 0⟩ (emptyItb 3)
        (nameIndex (INDEX_CREATE ||| INDEX_BY_NAME)) getHmr = some (0, hmr) ∧
      (RoundTrip ((nameIndex (INDEX_CREATE ||| INDEX_BY_NAME)).header 0)
          (servedEntry {} ⟨0, 0⟩ (emptyItb 3) (nameIndex (INDEX_CREATE ||| INDEX_BY_NAME)))
          (sendReply hmr) ↔
        RepliesWhole zeroContext {} ⟨0, 0⟩ (emptyItb 3)
          (nameIndex (INDEX_CREATE ||| INDEX_BY_NAME))) :=
  ⟨_, rfl, reply_round_trip_iff zeroContext {} ⟨0, 0⟩ (emptyItb 3) _ _ rfl⟩

/-- The creation of a hard link is answered with 0, and its reply has no link source. -/
theorem link_reply_lost :
    ∃ hmr, cbhtItbHitReply zeroContext {} ⟨0, 0⟩ (emptyItb 3)
        (nameIndex (INDEX_CREATE ||| INDEX_BY_NAME ||| INDEX_CREATE_LINK)) getHmr =
          some (0, hmr) ∧
      hmrExtract (sendReply hmr) EXTRACT_LS = none ∧
      ¬RoundTrip ((nameIndex (INDEX_CREATE ||| INDEX_BY_NAME ||| INDEX_CREATE_LINK)).header 0)
        (servedEntry {} ⟨0, 0⟩ (emptyItb 3)
          (nameIndex (INDEX_CREATE ||| INDEX_BY_NAME ||| INDEX_CREATE_LINK)))
        (sendReply hmr) := by
  refine ⟨_, rfl, rfl, fun trip => ?_⟩
  obtain ⟨⟨offset, extracted, -⟩, -⟩ := trip.ls _ rfl rfl
  cases extracted

end Hvfs
