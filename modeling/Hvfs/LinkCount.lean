/-
This file determines along which runs of unlinks, added links and updates the
link count of an entry agrees with its state.

Both functions change `nlink` without a test, and only the unlink derives the
state from it. An UNLINKED entry still matches a request with the shadow flag;
an unlink then wraps the count and brings the entry back, and an added link
leaves a counted entry that the asynchronous pass deletes.
-/

import Hvfs.ItbCow
import Hvfs.ItbRuns

namespace Hvfs

open Transition

/-! ### The requests -/

/-- What a request does to the link count. -/
inductive LinkKind
  | update
  | unlink
  | linkAdd
  deriving DecidableEq, Repr

/-- How much the request is to change the count. -/
def LinkKind.change : LinkKind → Int
  | .update => 0
  | .unlink => -1
  | .linkAdd => 1

/-- What the flags of a request make of it in `itb_search`. -/
def linkKind (hi : HvfsIndex) : Option LinkKind :=
  if Flag.has hi.flag INDEX_LOOKUP then none
  else if Flag.has hi.flag INDEX_CREATE then none
  else if Flag.has hi.flag INDEX_MDU_UPDATE then some .update
  else if Flag.has hi.flag INDEX_UNLINK then some .unlink
  else if Flag.has hi.flag INDEX_LINK_ADD then some .linkAdd
  else none

/-- A request of one of the kinds that keeps to its entry; with `memory`, the search copies the block
first. -/
structure LinkRequest where
  kind : LinkKind
  hi : HvfsIndex
  fits : hi.Fits
  isKind : linkKind hi = some kind
  memory : Option (Nat → Ite)

/-- A request for a new file or directory that keeps to its entry. -/
structure CreatesFile (hi : HvfsIndex) : Prop where
  fits : hi.Fits
  copy : Flag.has hi.flag INDEX_CREATE_COPY = false
  link : Flag.has hi.flag INDEX_CREATE_LINK = false

/-- The block after a request. -/
def linkStep (hmi : Hmi) (i : Itb) (request : LinkRequest) : Option Itb :=
  (itbSearchCow hmi i request.hi request.memory).map SearchResult.itb

/-- The entry that the walk of a search finds. -/
def foundEntry (i : Itb) (hi : HvfsIndex) : Option Nat :=
  (itbFind i hi (2 * i.total + 1) (hashSlot i hi.hash)).bind fun found =>
    found.map fun cell => (i.index cell).entry

/-- What a request of a kind makes of the entry that it finds. -/
def LinkKind.entry (hi : HvfsIndex) (e : Ite) : LinkKind → Ite
  | .update => iteUpdate hi e
  | .unlink => iteUnlinkNormal e
  | .linkAdd => { e with mdu := { e.mdu with nlink := e.mdu.nlink + 1 } }

/-! ### One entry -/

/-- The entry is in state UNLINKED exactly when it has no links. -/
def LinksCounted (e : Ite) : Prop := e.state = ITE_UNLINKED ↔ e.mdu.nlink = 0

/-- A change of the link count without a wrap, which leaves the state in agreement and an UNLINKED
entry UNLINKED. -/
structure LinksAgree (kind : LinkKind) (e after : Ite) : Prop where
  change : (after.mdu.nlink.toNat : Int) = e.mdu.nlink.toNat + kind.change
  counted : LinksCounted after
  stays : e.state = ITE_UNLINKED → after.state = ITE_UNLINKED

/-- An UNLINKED entry is only updated, and an entry with 65535 links gets no further one. -/
structure LinkSafe (kind : LinkKind) (e : Ite) : Prop where
  alive : e.state = ITE_UNLINKED → kind = .update
  room : kind = .linkAdd → e.mdu.nlink ≠ 65535

section Entry

variable {hi : HvfsIndex} {e : Ite}

theorem iteUpdate_nlink (update : Flag.has hi.flag INDEX_MDU_UPDATE = true) :
    (iteUpdate hi e).mdu.nlink = e.mdu.nlink := by
  unfold iteUpdate
  rw [if_pos update]
  cases hi.data.mu with
  | none => rfl
  | some mu =>
    simp only
    rw [muApply_mdu]
    rfl

theorem linkKind_update (kind : linkKind hi = some .update) :
    Flag.has hi.flag INDEX_MDU_UPDATE = true := by
  unfold linkKind at kind
  split_ifs at kind with lookup create update unlink linkAdd
  · exact update
  · cases kind
  · cases kind

theorem nlink_unlink (nlink : U16) :
    ((nlink - 1).toNat : Int) = nlink.toNat + LinkKind.unlink.change ↔ nlink ≠ 0 := by
  unfold LinkKind.change
  bv_omega

theorem nlink_linkAdd (nlink : U16) :
    ((nlink + 1).toNat : Int) = nlink.toNat + LinkKind.linkAdd.change ↔ nlink ≠ 65535 := by
  unfold LinkKind.change
  bv_omega

/-- On a counted entry a request keeps count and state in agreement exactly when it is safe. -/
theorem linksAgree_iff {kind : LinkKind} (isKind : linkKind hi = some kind)
    (counted : LinksCounted e) :
    LinksAgree kind e (kind.entry hi e) ↔ LinkSafe kind e := by
  cases kind with
  | update =>
    have nlink := iteUpdate_nlink (e := e) (linkKind_update isKind)
    have state : (iteUpdate hi e).state = e.state := by
      unfold Ite.state
      rw [iteUpdate_flag]
    constructor
    · intro _
      exact ⟨fun _ => rfl, by rintro ⟨⟩⟩
    · intro _
      refine ⟨?_, ?_, ?_⟩
      · show ((iteUpdate hi e).mdu.nlink.toNat : Int) = e.mdu.nlink.toNat + 0
        rw [nlink, add_zero]
      · show (iteUpdate hi e).state = ITE_UNLINKED ↔ (iteUpdate hi e).mdu.nlink = 0
        rw [state, nlink]
        exact counted
      · intro unlinked
        show (iteUpdate hi e).state = ITE_UNLINKED
        rw [state, unlinked]
  | unlink =>
    have nlink : (iteUnlinkNormal e).mdu.nlink = e.mdu.nlink - 1 := by rw [iteUnlinkNormal_mdu]
    have state := iteUnlinkNormal_state e
    constructor
    · intro agree
      have some := (nlink_unlink e.mdu.nlink).mp (by rw [← nlink]; exact agree.change)
      exact ⟨fun unlinked => absurd (counted.mp unlinked) some, by rintro ⟨⟩⟩
    · intro safe
      have alive : e.state ≠ ITE_UNLINKED := fun unlinked => by cases safe.alive unlinked
      have some : e.mdu.nlink ≠ 0 := fun zero => alive (counted.mpr zero)
      refine ⟨?_, ?_, fun unlinked => absurd unlinked alive⟩
      · show ((iteUnlinkNormal e).mdu.nlink.toNat : Int) = _
        rw [nlink]
        exact (nlink_unlink e.mdu.nlink).mpr some
      · show (iteUnlinkNormal e).state = ITE_UNLINKED ↔ (iteUnlinkNormal e).mdu.nlink = 0
        rw [state, nlink]
        split_ifs with last
        · rw [last]
          exact ⟨fun _ => rfl, fun _ => rfl⟩
        · refine ⟨fun shadow => absurd shadow (by decide), fun zero => absurd ?_ last⟩
          bv_omega
  | linkAdd =>
    constructor
    · intro agree
      have room := (nlink_linkAdd e.mdu.nlink).mp agree.change
      refine ⟨fun unlinked => ?_, fun _ => room⟩
      have zero := agree.counted.mp (agree.stays unlinked)
      change e.mdu.nlink + 1 = 0 at zero
      exact absurd (show e.mdu.nlink = 65535 by bv_omega) room
    · intro safe
      have alive : e.state ≠ ITE_UNLINKED := fun unlinked => by cases safe.alive unlinked
      have room := safe.room rfl
      refine ⟨(nlink_linkAdd e.mdu.nlink).mpr room, ?_, fun unlinked => absurd unlinked alive⟩
      show e.state = ITE_UNLINKED ↔ e.mdu.nlink + 1 = 0
      exact ⟨fun unlinked => absurd unlinked alive, fun zero => absurd (by bv_omega) room⟩

end Entry

/-! ### One request -/

/-- The entry `nr` is on a chain of the block, it is a file, and its count agrees with its state. -/
structure CountedFile (nr : Nat) (i : Itb) : Prop where
  shape : ∃ chain, Shape i chain
  normal : Flag.has (i.ite nr).flag ITE_FLAG_NORMAL = true
  noLink : Flag.has (i.ite nr).flag ITE_FLAG_LS = false
  counted : LinksCounted (i.ite nr)

section Request

variable {i : Itb} {chain : Nat → List Nat} {nr cell : Nat}

/-- What `itb_search` is to do for a request of a kind. -/
def LinkKind.act (cell : Nat) : LinkKind → SearchAct
  | .update => .update cell
  | .unlink => .unlink cell
  | .linkAdd => .linkAdd cell

theorem linkKind_plan {hi : HvfsIndex} {kind : LinkKind} (isKind : linkKind hi = some kind)
    (noLink : Flag.has (i.ite (i.index cell).entry).flag ITE_FLAG_LS = false) :
    planFound i hi cell = .dirty (kind.act cell) := by
  unfold linkKind at isKind
  unfold planFound
  simp only
  split_ifs at isKind with lookup create update unlink linkAdd
  · cases isKind
    rw [if_neg lookup, if_neg create, if_pos update]
    rfl
  · cases isKind
    rw [if_neg lookup, if_neg create, if_neg update, if_pos unlink]
    rfl
  · cases isKind
    rw [if_neg lookup, if_neg create, if_neg update, if_neg unlink, if_pos linkAdd,
      if_neg (by rw [noLink]; exact Bool.false_ne_true)]
    rfl

theorem LinkKind.entry_kind {hi : HvfsIndex} {e : Ite} (kind : LinkKind)
    (normal : Flag.has e.flag ITE_FLAG_NORMAL = true)
    (noLink : Flag.has e.flag ITE_FLAG_LS = false) :
    Flag.has (kind.entry hi e).flag ITE_FLAG_NORMAL = true ∧
      Flag.has (kind.entry hi e).flag ITE_FLAG_LS = false := by
  cases kind with
  | update =>
    rw [LinkKind.entry, iteUpdate_flag]
    exact ⟨normal, noLink⟩
  | unlink => exact ⟨iteUnlinkNormal_normal e normal, (iteUnlinkNormal_ls e).trans noLink⟩
  | linkAdd => exact ⟨normal, noLink⟩

theorem foundEntry_iff (shape : Shape i chain) (hi : HvfsIndex) :
    foundEntry i hi = some nr ↔ ∃ cell, Found i chain hi cell ∧ (i.index cell).entry = nr := by
  unfold foundEntry Found
  rw [itbFind_eq shape hi (hashSlot_lt i hi.hash), Option.bind_some, Option.map_eq_some_iff]

/-- `itb_search` of a file does to it what the kind of the request says. -/
theorem itbSearch_link (shape : Shape i chain) (hmi : Hmi) {hi : HvfsIndex} {kind : LinkKind}
    (isKind : linkKind hi = some kind) (found : Found i chain hi cell)
    (normal : Flag.has (i.ite (i.index cell).entry).flag ITE_FLAG_NORMAL = true)
    (noLink : Flag.has (i.ite (i.index cell).entry).flag ITE_FLAG_LS = false) :
    ∃ result, itbSearch hmi i hi = some result ∧ Shape result.itb chain ∧
      result.itb.ite (i.index cell).entry = kind.entry hi (i.ite (i.index cell).entry) := by
  rw [itbSearch_found shape hmi found, linkKind_plan isKind noLink]
  cases kind with
  | update =>
    exact ⟨_, rfl, shape.setIte _ _, Function.update_self _ _ _⟩
  | unlink =>
    have marked : ∃ after, iteUnlink i cell (hashSlot i hi.hash) = some after ∧ Shape after chain ∧
        after.ite (i.index cell).entry = iteUnlinkNormal (i.ite (i.index cell).entry) :=
      ⟨_, if_pos normal, (shape.setIte _ _).setUnlink _, Function.update_self _ _ _⟩
    obtain ⟨after, result, shapeAfter, entry⟩ := marked
    simp only [LinkKind.act, itbAct, result]
    exact ⟨_, rfl, shapeAfter, entry⟩
  | linkAdd =>
    exact ⟨_, rfl, shape.setIte _ _, Function.update_self _ _ _⟩

/-- The same with a copy of the block on the way. -/
theorem linkStep_entry (hmi : Hmi) (file : CountedFile nr i) {request : LinkRequest}
    (reaches : foundEntry i request.hi = some nr) :
    ∃ after chain, linkStep hmi i request = some after ∧ Shape after chain ∧
      after.ite nr = request.kind.entry request.hi (i.ite nr) := by
  obtain ⟨chain, shape⟩ := file.shape
  obtain ⟨cell, found, rfl⟩ := (foundEntry_iff shape request.hi).mp reaches
  unfold linkStep
  rw [itbSearchCow_eq]
  rcases searchBlock_cases i request.hi request.memory with same | ⟨copied, same⟩
  · obtain ⟨result, ran, shapeAfter, entry⟩ :=
      itbSearch_link shape hmi request.isKind found file.normal file.noLink
    rw [same, ran]
    exact ⟨_, chain, rfl, shapeAfter, entry⟩
  · have ite := itbCow_ite shape copied (Found.holds found)
    have foundCopy : Found (itbCow i copied) chain request.hi cell :=
      (itbCow_find shape copied request.hi).trans found
    obtain ⟨result, ran, shapeAfter, entry⟩ :=
      itbSearch_link (itbCow_shape shape copied) hmi request.isKind foundCopy
        (by rw [show (itbCow i copied).index cell = i.index cell from rfl, ite]; exact file.normal)
        (by rw [show (itbCow i copied).index cell = i.index cell from rfl, ite]; exact file.noLink)
    rw [show (itbCow i copied).index cell = i.index cell from rfl, ite] at entry
    rw [same, ran]
    exact ⟨_, chain, rfl, shapeAfter, entry⟩

/-- On a counted file one request keeps count and state in agreement exactly when it is safe, and
then leaves a counted file. -/
theorem linkStep_agrees (hmi : Hmi) (file : CountedFile nr i) {request : LinkRequest}
    (reaches : foundEntry i request.hi = some nr) :
    (∃ after, linkStep hmi i request = some after ∧
        LinksAgree request.kind (i.ite nr) (after.ite nr)) ↔
      LinkSafe request.kind (i.ite nr) := by
  obtain ⟨after, chain, stepped, _, entry⟩ := linkStep_entry hmi file reaches
  rw [← linksAgree_iff request.isKind file.counted, ← entry]
  constructor
  · rintro ⟨other, same, agree⟩
    cases stepped.symm.trans same
    exact agree
  · exact fun agree => ⟨after, stepped, agree⟩

theorem linkStep_file (hmi : Hmi) (file : CountedFile nr i) {request : LinkRequest} {after : Itb}
    (reaches : foundEntry i request.hi = some nr) (safe : LinkSafe request.kind (i.ite nr))
    (ran : linkStep hmi i request = some after) : CountedFile nr after := by
  obtain ⟨other, chain, stepped, shape, entry⟩ := linkStep_entry hmi file reaches
  cases stepped.symm.trans ran
  have kind := @LinkKind.entry_kind request.hi (i.ite nr) request.kind file.normal file.noLink
  rw [← entry] at kind
  have agree := (linksAgree_iff request.isKind file.counted).mpr safe
  rw [← entry] at agree
  exact ⟨⟨chain, shape⟩, kind.1, kind.2, agree.counted⟩

end Request

/-! ### Every run -/

section Runs

variable {i : Itb} {chain : Nat → List Nat}

theorem iteCreate_nlink {hi : HvfsIndex} (copy : Flag.has hi.flag INDEX_CREATE_COPY = false)
    (link : Flag.has hi.flag INDEX_CREATE_LINK = false) (e : Ite) :
    (iteCreate hi e).mdu.nlink = 1 := by
  unfold iteCreate
  simp only [copy, link, Bool.false_eq_true, if_false]
  split_ifs with symlink long
  · rfl
  · rfl
  · cases hi.data.mu with
    | none => rfl
    | some mu =>
      simp only
      split_ifs
      · rfl
      · rw [muApply_mdu]
        rfl

/-- A plain creation leaves a file with one link. -/
theorem itbAddIte_file (shape : Shape i chain) (hmi : Hmi) {hi : HvfsIndex}
    (creates : CreatesFile hi) (created : (itbAddIte hmi i hi).err = 0) :
    CountedFile (findFirstZeroBit i.bitmap i.total) (itbAddIte hmi i hi).itb ∧
      ((itbAddIte hmi i hi).itb.ite (findFirstZeroBit i.bitmap i.total)).mdu.nlink = 1 := by
  by_cases notFull : i.entries < (i.total : Int)
  · obtain ⟨after, chainAfter, result, _, added, ite⟩ := itbAddIte_first shape notFull hmi hi rfl
    have entry : after.ite (findFirstZeroBit i.bitmap i.total) =
        iteCreate hi (newIte hmi hi).1 := by
      rw [ite, Function.update_self]
    have flag : (iteCreate hi (newIte hmi hi).1).flag = newFlag hi := iteCreate_flag _ _
    have nlink := iteCreate_nlink creates.copy creates.link (newIte hmi hi).1
    have noLink : Flag.has (newFlag hi) ITE_FLAG_LS = false := by
      unfold newFlag
      simp only [creates.link, Bool.false_eq_true, if_false]
      split_ifs <;> decide
    rw [result]
    refine ⟨⟨⟨chainAfter, added.shape⟩, ?_, ?_, ?_⟩, ?_⟩
    · rw [entry, flag]
      exact newFlag_normal creates.link
    · rw [entry, flag]
      exact noLink
    · unfold LinksCounted Ite.state
      rw [entry, flag, newFlag_active, nlink]
      exact ⟨fun absurdity => absurd absurdity (by decide),
        fun absurdity => absurd absurdity (by decide)⟩
    · rw [entry, nlink]
  · rw [itbAddIte_full (not_lt.mp notFull)] at created
    exact absurd created (show (-ESPLIT : Int) ≠ 0 by decide)

/-- Along every run of requests that reach an entry after its plain creation, the link count wraps
nowhere, agrees with the state in every block of the run, and an UNLINKED entry stays UNLINKED, if
and only if no request of the run unlinks or links the entry when it is UNLINKED and none links it
when it has 65535 links. -/
theorem itb_link_runs (shape : Shape i chain) (hmi : Hmi) (hi : HvfsIndex)
    (creates : CreatesFile hi) (created : (itbAddIte hmi i hi).err = 0)
    (nr : Nat) (isNew : nr = findFirstZeroBit i.bitmap i.total) (hmiRun : Hmi)
    (requests : List LinkRequest)
    (reach : Guarded (linkStep hmiRun) (fun i request => foundEntry i request.hi = some nr)
      (itbAddIte hmi i hi).itb requests) :
    ((itbAddIte hmi i hi).itb.ite nr).mdu.nlink = 1 ∧
    LinksCounted ((itbAddIte hmi i hi).itb.ite nr) ∧
      (Guarded (linkStep hmiRun) (fun i request => ∃ after, linkStep hmiRun i request = some after ∧
          LinksAgree request.kind (i.ite nr) (after.ite nr)) (itbAddIte hmi i hi).itb requests ↔
        Guarded (linkStep hmiRun) (fun i request => LinkSafe request.kind (i.ite nr))
          (itbAddIte hmi i hi).itb requests) := by
  obtain ⟨file, one⟩ := itbAddIte_file shape hmi creates created
  rw [← isNew] at file one
  refine ⟨one, file.counted, ?_⟩
  have same := @guarded_iff_of_invariant _ _ (linkStep hmiRun)
    (fun i request => foundEntry i request.hi = some nr ∧ LinkSafe request.kind (i.ite nr))
    (fun i request => foundEntry i request.hi = some nr ∧
      ∃ after, linkStep hmiRun i request = some after ∧
        LinksAgree request.kind (i.ite nr) (after.ite nr))
    (CountedFile nr)
    (fun _ _ file => and_congr_right fun reaches => (linkStep_agrees hmiRun file reaches).symm)
    (fun _ _ _ file safe ran => linkStep_file hmiRun file safe.1 safe.2 ran) _ requests file
  rw [guarded_and, guarded_and] at same
  exact ⟨fun agree => (same.mpr ⟨reach, agree⟩).2, fun safe => (same.mp ⟨reach, safe⟩).2⟩

end Runs

/-- A request for the name `a`, with any entry, or with one that is in state UNLINKED or SHADOW. -/
def linkRequest (kind : LinkKind) (flag : U32) (fits : (collidingIndex flag 0 97).Fits)
    (isKind : linkKind (collidingIndex flag 0 97) = some kind) : LinkRequest :=
  ⟨kind, collidingIndex flag 0 97, fits, isKind, none⟩

/-- The update of the mode of `a` while it is in state UNLINKED or SHADOW. -/
def shadowUpdate : HvfsIndex :=
  { collidingIndex (INDEX_MDU_UPDATE ||| INDEX_BY_NAME ||| INDEX_ITE_SHADOW) 0 97 with
    data := ⟨4096, some ⟨0, 0, 0, 0, MU_MODE, 0, 0, 0, 0, 420, []⟩, {}, ⟨0, 0, 0⟩, 0⟩ }

/-- One more link, two unlinks, and an update of what is left. -/
def linkRequests : List LinkRequest :=
  [linkRequest .linkAdd (INDEX_LINK_ADD ||| INDEX_BY_NAME) (by decide) (by decide),
    linkRequest .unlink (INDEX_UNLINK ||| INDEX_BY_NAME) (by decide) (by decide),
    linkRequest .unlink (INDEX_UNLINK ||| INDEX_BY_NAME) (by decide) (by decide),
    ⟨.update, shadowUpdate, by decide, by decide, none⟩]

/-- Two unlinks of the only link, the second one with the shadow flag. -/
def wrappingRequests : List LinkRequest :=
  [linkRequest .unlink (INDEX_UNLINK ||| INDEX_BY_NAME) (by decide) (by decide),
    linkRequest .unlink (INDEX_UNLINK ||| INDEX_BY_NAME ||| INDEX_ITE_SHADOW) (by decide)
      (by decide)]

/-- The block with the entry `a`. -/
def createdBlock : Itb := (itbAddIte ⟨0, 0⟩ (emptyItb 3) (collidingIndex INDEX_CREATE 0 97)).itb

theorem itb_link_runs_four :
    (createdBlock.ite 0).mdu.nlink = 1 ∧ LinksCounted (createdBlock.ite 0) ∧
      (Guarded (linkStep ⟨0, 0⟩) (fun i request => ∃ after, linkStep ⟨0, 0⟩ i request = some after ∧
          LinksAgree request.kind (i.ite 0) (after.ite 0)) createdBlock linkRequests ↔
        Guarded (linkStep ⟨0, 0⟩) (fun i request => LinkSafe request.kind (i.ite 0)) createdBlock
          linkRequests) :=
  itb_link_runs (emptyItb_shape 3) ⟨0, 0⟩ (collidingIndex INDEX_CREATE 0 97)
    ⟨by decide, by decide, by decide⟩ (by decide) 0 (by decide) ⟨0, 0⟩ linkRequests (by decide)

/-- The second unlink reaches the UNLINKED entry. -/
theorem itb_link_runs_wrap : ¬ ∀ (i : Itb) (chain : Nat → List Nat) (hmi : Hmi) (hi : HvfsIndex)
    (nr : Nat) (hmiRun : Hmi) (requests : List LinkRequest), Shape i chain →
    CreatesFile hi → (itbAddIte hmi i hi).err = 0 → nr = findFirstZeroBit i.bitmap i.total →
    Guarded (linkStep hmiRun) (fun i request => foundEntry i request.hi = some nr)
      (itbAddIte hmi i hi).itb requests →
    Guarded (linkStep hmiRun) (fun i request => ∃ after, linkStep hmiRun i request = some after ∧
      LinksAgree request.kind (i.ite nr) (after.ite nr)) (itbAddIte hmi i hi).itb requests := by
  intro always
  have agree := always (emptyItb 3) _ ⟨0, 0⟩ (collidingIndex INDEX_CREATE 0 97) 0 ⟨0, 0⟩
    wrappingRequests (emptyItb_shape 3) ⟨by decide, by decide, by decide⟩ (by decide) (by decide)
    (by decide)
  obtain ⟨_, second⟩ := agree
  obtain ⟨⟨after, ran, wrapped⟩, _⟩ := second _ rfl
  cases ran
  exact absurd wrapped.change (by decide)

end Hvfs
