/-
This file settles which requests keep what is read of them within the bytes
received and what is written within an entry. The handlers test the size of the
index and no more, so this is a condition on the lengths in the request, for the
functions that its flags lead to.
-/

import Hvfs.ItbSearch
import Hvfs.RequestAccess
import Mathlib.Data.List.Lemmas

namespace Hvfs

/-! ### The condition -/

/-- The flags that a handler adds. -/
def ClientOp.flag : ClientOp → U32
  | .lookup => INDEX_LOOKUP
  | .create => INDEX_CREATE ||| INDEX_BY_NAME
  | .update => INDEX_MDU_UPDATE
  | .linkadd => INDEX_LINK_ADD
  | .unlink => INDEX_UNLINK
  | .symlink => INDEX_CREATE ||| INDEX_SYMLINK

/-- The flags with which a handler searches. -/
def RequestBuffer.flag (r : RequestBuffer) (op : ClientOp) : U32 := r.header.flag ||| op.flag

/-- What `hi->data` reads as at the search. -/
def RequestBuffer.payload (r : RequestBuffer) (op : ClientOp) : Payload :=
  r.payloadAt (r.pointer op)

/-- The handler drops the request before the search: an update or a symlink without payload. -/
def RequestBuffer.Dropped (r : RequestBuffer) (op : ClientOp) : Prop :=
  (op = .update ∨ op = .symlink) ∧ r.header.dlen = 0

/-- Entries can be found at all: by uuid or by name, and not only those that are at once active and
shadows. -/
def Finds (flag : U32) : Prop :=
  (Flag.has flag INDEX_BY_UUID = true ∨ Flag.has flag INDEX_BY_NAME = true) ∧
    ¬(Flag.has flag INDEX_ITE_SHADOW = true ∧ Flag.has flag INDEX_ITE_ACTIVE = true)

/-- Names are compared. -/
def Compares (flag : U32) : Prop :=
  Flag.has flag INDEX_BY_UUID = false ∧ Finds flag

/-- A missing entry is created. -/
def CreatesMissing (flag : U32) : Prop :=
  Flag.has flag INDEX_CREATE = true ∨ Flag.has flag INDEX_SYMLINK = true

/-- An entry that is found is updated. -/
def UpdatesFound (flag : U32) : Prop :=
  Finds flag ∧ Flag.has flag INDEX_LOOKUP = false ∧
    if Flag.has flag INDEX_CREATE then
      Flag.has flag INDEX_CREATE_FORCE = true ∧ Flag.has flag INDEX_CREATE_DIR = false ∧
        (Flag.has flag INDEX_CREATE_COPY = true ∨ Flag.has flag INDEX_CREATE_LINK = true)
    else Flag.has flag INDEX_MDU_UPDATE = true

section Fits

variable (r : RequestBuffer)

/-- The name lies in the bytes received, and there is room for it in an entry. -/
def NameFits : Prop := Within r r.nameAt r.nameSize ∧ r.nameSize ≤ HVFS_MAX_NAME_LEN

/-- One column behind an `mdu_update` lies in the bytes received, and its number in the array. -/
def ColumnFits (ptr : U64) (cno k : Nat) : Prop :=
  let mc := ptr + 56 + BitVec.ofNat 64 (32 * k)
  Within r mc 8 ∧ Within r (mc + 8) 24 ∧ columnOffset cno + 24 ≤ IteField.column.size

/-- The fields that are valid lie in the bytes received, and so do the columns. -/
def MuFits (ptr : U64) (mu : MduUpdate) : Prop :=
  (∀ field ∈ muFields, Flag.has mu.valid field.mask = true →
    Within r (ptr + field.source) field.size) ∧
  (Flag.has mu.valid MU_COLUMN = true → Within r (ptr + 54) 2 ∧
    ∀ column ∈ mu.columns.zipIdx, ColumnFits r ptr column.1.1 column.2)

/-- What `ite_create` takes for its payload lies in the bytes received. -/
def CreateFits (flag : U32) (data : Payload) : Prop :=
  if Flag.has flag INDEX_CREATE_COPY then Within r data.ptr 88
  else if Flag.has flag INDEX_CREATE_LINK then Within r data.ptr sizeofLinkSource
  else if Flag.has flag INDEX_SYMLINK then
    data.ptr.toNat ≤ 16 → Within r data.ptr data.ptr.toNat
  else
    ∀ mu, data.mu = some mu →
      Within r (data.ptr + 32) 4 ∧ (mu.valid ≠ 0 → MuFits r data.ptr mu)

/-- What `ite_update` takes for its payload lies in the bytes received. -/
def UpdateFits (flag : U32) (data : Payload) : Prop :=
  if Flag.has flag INDEX_MDU_UPDATE then
    Within r (data.ptr + 32) 4 ∧ ∀ mu, data.mu = some mu → MuFits r data.ptr mu
  else if Flag.has flag INDEX_CREATE_COPY then Within r data.ptr 88
  else if Flag.has flag INDEX_CREATE_LINK then Within r data.ptr sizeofLinkSource
  else True

/-- The lengths that a search uses fit: the name that is compared, the name and the payload of a
new entry, the payload of an update. -/
structure SearchFits (flag : U32) (data : Payload) : Prop where
  compared : Compares flag → Within r r.nameAt r.nameSize
  created : CreatesMissing flag → NameFits r ∧ CreateFits r flag data
  updated : UpdatesFound flag → UpdateFits r flag data

/-- The lengths in a request fit: the name that a handler hashes, and what the search uses, unless
the request is dropped or reads a directory. -/
structure RequestFits (op : ClientOp) : Prop where
  hashed : Flag.has r.header.flag INDEX_BY_NAME = true → r.header.hash = 0 →
    Within r r.nameAt r.header.namelen.toNat
  searched : ¬r.Dropped op → Flag.has (r.flag op) INDEX_BY_ITB = false →
    SearchFits r (r.flag op) (r.payload op)

end Fits

/-! ### What is promised -/

/-- The request is answered with an error. -/
def AnswersError (ended : Option (HandlerEnd × Mds)) : Prop :=
  ∃ err after, ended = some (.replied err, after) ∧ err ≠ 0

/-- In every state of the server and whatever happens along the way, the request is answered with
an error, or all that is touched lies within its bounds. -/
def PayloadBounded (r : RequestBuffer) (op : ClientOp) : Prop :=
  ∀ env chance m, AnswersError (serve env m (handlerPlanOf r op env chance) chance) ∨
    ∀ access ∈ handlerAccess r op env chance m, InBounds r access

/-! ### What each function touches -/

section Functions

variable {r : RequestBuffer} {hi : HvfsIndex}

theorem nameAccess_bounded : (∀ access ∈ nameAccess r, InBounds r access) ↔ NameFits r := by
  have name : IteField.name.size = HVFS_MAX_NAME_LEN := rfl
  unfold nameAccess NameFits
  simp only [List.forall_mem_cons, inBounds_read, inBounds_write, name]
  constructor
  · rintro ⟨received, written, _⟩
    exact ⟨received, by omega⟩
  · rintro ⟨received, room⟩
    refine ⟨received, by omega, ?_⟩
    have extended : (r.header.namelen.signExtend 64).toInt = r.header.namelen.toInt :=
      BitVec.toInt_signExtend_of_le (by decide)
    have unsigned : (r.header.namelen.signExtend 64).toInt = r.nameSize := by
      unfold RequestBuffer.nameSize HVFS_MAX_NAME_LEN at room
      exact BitVec.toInt_eq_toNat_of_lt (by omega)
    split
    · next short =>
      simp only [List.mem_singleton, forall_eq, inBounds_write, name]
      omega
    · rintro access ⟨⟩

theorem muApplyAccess_bounded {ptr : U64} {mu : MduUpdate} :
    (∀ access ∈ muApplyAccess ptr mu, InBounds r access) ↔ MuFits r ptr mu := by
  have inEntry : ∀ field ∈ muFields, 0 ≤ field.target ∧ field.target + field.size ≤ 88 := by
    decide
  unfold muApplyAccess MuFits
  rw [List.forall_mem_append]
  refine and_congr ?_ ?_
  · simp only [List.forall_mem_flatMap, List.mem_filter]
    constructor
    · intro bounded field member valid
      exact bounded field ⟨member, valid⟩ _ List.mem_cons_self
    · intro fits field member access touched
      rcases List.mem_cons.mp touched with rfl | touched
      · exact fits field member.1 member.2
      · cases List.mem_singleton.mp touched
        exact Or.inr (inEntry field member.1)
  · by_cases column : Flag.has mu.valid MU_COLUMN = true
    · simp only [column, if_true, List.forall_mem_cons, List.forall_mem_flatMap, forall_const]
      refine and_congr Iff.rfl (forall₂_congr fun entry _ => ?_)
      unfold ColumnFits
      simp only [InBounds, List.not_mem_nil, false_implies, implies_true, and_true]
      refine and_congr Iff.rfl (and_congr Iff.rfl ?_)
      omega
    · simp only [column, if_false, Bool.false_eq_true, false_implies, iff_true]
      rintro access ⟨⟩

theorem createPayloadAccess_bounded :
    (∀ access ∈ createPayloadAccess hi, InBounds r access) ↔ CreateFits r hi.flag hi.data := by
  unfold createPayloadAccess CreateFits
  split_ifs with copy link symlink
  · simp [IteField.size]
  · simp [IteField.size, sizeofLinkSource]
  · by_cases large : hi.data.ptr.toNat > 16
    · simp [IteField.size, large]
    · have small : hi.data.ptr.toNat ≤ 16 := not_lt.mp large
      have inEntry : hi.data.ptr.toNat = 0 ∨ (72 : Int) + hi.data.ptr.toNat ≤ 88 := by omega
      simpa [IteField.size, large, small] using fun _ => inEntry
  · rcases hi.data.mu with _ | mu
    · simp [IteField.size, sizeofPtr_le]
    · by_cases empty : mu.valid = 0
      · simp [IteField.size, sizeofPtr_le, empty]
      · simp [IteField.size, sizeofPtr_le, muApplyAccess_bounded, show ¬mu.valid = 0#32 from empty]

theorem iteUpdateAccess_bounded :
    (∀ access ∈ iteUpdateAccess hi, InBounds r access) ↔ UpdateFits r hi.flag hi.data := by
  unfold iteUpdateAccess UpdateFits
  split_ifs with update copy link
  · rcases hi.data.mu with _ | mu
    · simp
    · simp [muApplyAccess_bounded]
  · simp [IteField.size]
  · simp [IteField.size, sizeofLinkSource]
  · simp

/-- Names are compared in entries that can be found by name only. -/
theorem iteMatchAccess_name {e : Ite} {access : Access} (touched : access ∈ iteMatchAccess r e hi) :
    Compares hi.flag ∧ access = .read r.nameAt r.nameSize := by
  unfold iteMatchAccess at touched
  split_ifs at touched with shadow active unlinked uuid name
  · exact absurd touched List.not_mem_nil
  · exact absurd touched List.not_mem_nil
  · exact absurd touched List.not_mem_nil
  · exact absurd touched List.not_mem_nil
  · refine ⟨⟨by simpa using uuid, Or.inr name, ?_⟩, List.mem_singleton.mp touched⟩
    rintro ⟨isShadow, isActive⟩
    simp only [isShadow, isActive, Bool.true_and, Bool.and_eq_true, bne_iff_ne] at shadow active
    have state : e.state = ITE_ACTIVE := not_not.mp active
    rw [state] at shadow
    exact shadow ⟨by decide, by decide⟩
  · exact absurd touched List.not_mem_nil

/-- What matches can be found. -/
theorem iteMatch_finds {e : Ite} (hit : iteMatch e hi = true) : Finds hi.flag := by
  unfold iteMatch at hit
  split_ifs at hit with shadow active unlinked uuid name
  all_goals
    refine ⟨by first | exact Or.inl uuid | exact Or.inr name, ?_⟩
    rintro ⟨isShadow, isActive⟩
    simp only [isShadow, isActive, Bool.true_and, Bool.and_eq_true, bne_iff_ne] at shadow active
    have state : e.state = ITE_ACTIVE := not_not.mp active
    rw [state] at shadow
    exact shadow ⟨by decide, by decide⟩

end Functions

/-! ### What a search touches -/

section Search

variable {r : RequestBuffer} {hi : HvfsIndex} {i : Itb}

theorem itbFindAccess_name {fuel offset : Nat} {access : Access}
    (touched : access ∈ itbFindAccess r hi i fuel offset) :
    Compares hi.flag ∧ access = .read r.nameAt r.nameSize := by
  induction fuel generalizing offset with
  | zero => exact absurd touched List.not_mem_nil
  | succ fuel inductionHypothesis =>
    unfold itbFindAccess at touched
    split at touched
    · dsimp only at touched
      split at touched
      · exact absurd touched List.not_mem_nil
      · exact iteMatchAccess_name touched
      · rcases List.mem_append.mp touched with here | behind
        · exact iteMatchAccess_name here
        · split at behind
          · exact absurd behind List.not_mem_nil
          · exact inductionHypothesis behind
    · exact absurd touched List.not_mem_nil

theorem itbFind_finds {fuel offset cell : Nat}
    (found : itbFind i hi fuel offset = some (some cell)) :
    Finds hi.flag := by
  induction fuel generalizing offset with
  | zero => cases found
  | succ fuel inductionHypothesis =>
    unfold itbFind at found
    split at found
    · dsimp only at found
      split at found
      · cases found
      · split at found
        · next hit => exact iteMatch_finds hit
        · cases found
      · split at found
        · next hit => exact iteMatch_finds hit
        · exact inductionHypothesis found
    · cases found

/-- A search that found an entry updates it only under the flags for that. -/
theorem planFound_updates {cell other : Nat} (finds : Finds hi.flag)
    (plan : planFound i hi cell = .dirty (.update other)) : UpdatesFound hi.flag := by
  unfold planFound at plan
  refine ⟨finds, ?_⟩
  grind

/-- What a search touches fits when its lengths do. -/
theorem itbSearchAccess_bounded (fits : SearchFits r hi.flag hi.data) :
    ∀ access ∈ itbSearchAccess r hi i, InBounds r access := by
  intro access touched
  rcases List.mem_append.mp touched with find | act
  · obtain ⟨compares, rfl⟩ := itbFindAccess_name find
    exact fits.compared compares
  · unfold itbPlan at act
    rcases found : itbFind i hi (2 * i.total + 1) (hashSlot i hi.hash) with _ | _ | cell
    · rw [found] at act
      exact absurd act List.not_mem_nil
    · rw [found] at act
      dsimp only [planMissing] at act
      split_ifs at act with creates
      · have missing : CreatesMissing hi.flag := by
          simpa only [CreatesMissing, Bool.or_eq_true] using creates
        obtain ⟨name, payload⟩ := fits.created missing
        unfold itbActAccess itbAddIteAccess at act
        dsimp only at act
        split_ifs at act
        · rcases List.mem_append.mp act with named | carried
          · exact nameAccess_bounded.mpr name access named
          · exact createPayloadAccess_bounded.mpr payload access carried
        · exact absurd act List.not_mem_nil
      · exact absurd act List.not_mem_nil
    · rw [found] at act
      dsimp only at act
      rcases plan : planFound i hi cell with _ | change
      · rw [plan] at act
        exact absurd act List.not_mem_nil
      · rw [plan] at act
        rcases change with other | other | other | _
        · have updates := planFound_updates (itbFind_finds found) plan
          exact iteUpdateAccess_bounded.mpr (fits.updated updates) access act
        · exact absurd act List.not_mem_nil
        · exact absurd act List.not_mem_nil
        · have none : planFound i hi cell ≠ .dirty .create := by
            unfold planFound
            grind
          exact absurd plan none

theorem mdsCbhtSearchAccess_bounded {env : Environment} {chance : Chance} {m : Mds}
    (fits : Flag.has hi.flag INDEX_BY_ITB = false → SearchFits r hi.flag hi.data) :
    ∀ access ∈ mdsCbhtSearchAccess r hi env chance m, InBounds r access := by
  intro access touched
  unfold mdsCbhtSearchAccess at touched
  split at touched
  · exact absurd touched List.not_mem_nil
  · split_ifs at touched with byItb
    · exact absurd touched List.not_mem_nil
    · have fits := fits (Bool.not_eq_true _ ▸ byItb)
      unfold itbSearchCowAccess at touched
      split at touched
      · exact itbSearchAccess_bounded fits access touched
      · rcases List.mem_append.mp touched with find | again
        · obtain ⟨compares, rfl⟩ := itbFindAccess_name find
          exact fits.compared compares
        · split at again
          · exact itbSearchAccess_bounded fits access again
          · exact absurd again List.not_mem_nil

end Search

/-! ### Searches that succeed -/

section Successes

variable {r : RequestBuffer} {hi : HvfsIndex}

/-- An entry that a search finds when it finds any. -/
def hitIte (hi : HvfsIndex) : Ite where
  hash := hi.hash
  uuid := hi.uuid
  flag := if Flag.has hi.flag INDEX_ITE_SHADOW then ITE_FLAG_NORMAL ||| ITE_SHADOW
    else ITE_FLAG_NORMAL
  name := hi.name

/-- A block of this entry. -/
def hitItb (hi : HvfsIndex) : Itb :=
  { emptyItb 0 with
    index := fun _ => { flag := .unique }
    ite := fun _ => hitIte hi }

theorem nameMatch_self (name : List U8) : nameMatch name name = true := by
  unfold nameMatch
  simp

/-- Its state is that of a shadow when shadows are asked for, and active otherwise. -/
theorem hitIte_state (hi : HvfsIndex) :
    (hitIte hi).state = if Flag.has hi.flag INDEX_ITE_SHADOW then ITE_SHADOW else ITE_ACTIVE := by
  unfold Ite.state hitIte
  dsimp only
  split <;> decide

theorem hitIte_flag (hi : HvfsIndex) :
    Flag.has (hitIte hi).flag ITE_FLAG_NORMAL = true ∧
      Flag.has (hitIte hi).flag ITE_FLAG_LS = false := by
  unfold hitIte
  dsimp only
  split <;> decide

theorem hitIte_matches (finds : Finds hi.flag) : iteMatch (hitIte hi) hi = true := by
  obtain ⟨way, notBoth⟩ := finds
  have asked : (if Flag.has hi.flag INDEX_BY_UUID then
      (hitIte hi).uuid == hi.uuid && (hitIte hi).hash == hi.hash
      else if Flag.has hi.flag INDEX_BY_NAME then nameMatch (hitIte hi).name hi.name
      else false) = true := by
    split_ifs with uuid name
    · simp [hitIte]
    · exact nameMatch_self hi.name
    · exact (way.elim uuid name).elim
  unfold iteMatch
  rw [hitIte_state]
  by_cases isShadow : Flag.has hi.flag INDEX_ITE_SHADOW = true
  · have notActive : Flag.has hi.flag INDEX_ITE_ACTIVE = false := by
      simpa [isShadow] using notBoth
    have notUnlinked : (ITE_SHADOW == ITE_UNLINKED) = false := by decide
    simpa [isShadow, notActive, notUnlinked] using asked
  · have notUnlinked : (ITE_ACTIVE == ITE_UNLINKED) = false := by decide
    simpa [isShadow, notUnlinked] using asked

theorem hashSlot_hitItb (hi : HvfsIndex) : hashSlot (hitItb hi) hi.hash = 0 := Nat.mod_one _

theorem hitItb_find (finds : Finds hi.flag) :
    itbFind (hitItb hi) hi (2 * (hitItb hi).total + 1) (hashSlot (hitItb hi) hi.hash) =
      some (some 0) := by
  have hit : iteMatch ((hitItb hi).ite 0) hi = true := hitIte_matches finds
  rw [hashSlot_hitItb]
  exact if_pos hit

/-- Its name is compared. -/
theorem hitItb_findAccess (compares : Compares hi.flag) :
    itbFindAccess r hi (hitItb hi) (2 * (hitItb hi).total + 1) (hashSlot (hitItb hi) hi.hash) =
      [.read r.nameAt r.nameSize] := by
  obtain ⟨notUuid, way, notBoth⟩ := compares
  have name : Flag.has hi.flag INDEX_BY_NAME = true := by simpa [notUuid] using way
  have reads : iteMatchAccess r (hitIte hi) hi = [.read r.nameAt r.nameSize] := by
    unfold iteMatchAccess
    rw [hitIte_state]
    by_cases isShadow : Flag.has hi.flag INDEX_ITE_SHADOW = true
    · have notActive : Flag.has hi.flag INDEX_ITE_ACTIVE = false := by
        simpa [isShadow] using notBoth
      have notUnlinked : (ITE_SHADOW == ITE_UNLINKED) = false := by decide
      simp [isShadow, notActive, notUnlinked, notUuid, name]
    · have notUnlinked : (ITE_ACTIVE == ITE_UNLINKED) = false := by decide
      simp [isShadow, notUnlinked, notUuid, name]
  rw [hashSlot_hitItb]
  exact reads

/-- An update of this entry is carried out. -/
theorem hitItb_updates (updates : UpdatesFound hi.flag) :
    itbPlan (hitItb hi) hi = some (.dirty (.update 0)) := by
  obtain ⟨finds, notLookup, ways⟩ := updates
  have plan : planFound (hitItb hi) hi 0 = .dirty (.update 0) := by
    unfold planFound
    grind
  unfold itbPlan
  rw [hitItb_find finds]
  exact congrArg some plan

/-- A request that does not create succeeds with it. -/
theorem hitItb_succeeds (hmi : Hmi) (finds : Finds hi.flag)
    (notCreates : ¬CreatesMissing hi.flag)
    (asks : Flag.has hi.flag INDEX_LOOKUP = true ∨ Flag.has hi.flag INDEX_MDU_UPDATE = true ∨
      Flag.has hi.flag INDEX_UNLINK = true ∨ Flag.has hi.flag INDEX_LINK_ADD = true) :
    ∃ result, itbSearch hmi (hitItb hi) hi = some result ∧ result.err = 0 := by
  have notCreate : Flag.has hi.flag INDEX_CREATE = false := by
    simpa using fun create => notCreates (Or.inl create)
  obtain ⟨normal, plain⟩ := hitIte_flag hi
  have entry : (hitItb hi).ite ((hitItb hi).index 0).entry = hitIte hi := rfl
  unfold itbSearch itbPlan
  rw [hitItb_find finds]
  unfold planFound
  simp only [entry, notCreate, Bool.false_eq_true, if_false]
  split_ifs with lookup update unlink linkAdd source symlink
  · exact ⟨_, rfl, rfl⟩
  · exact ⟨_, rfl, rfl⟩
  · have unlinked : ∃ after, iteUnlink (hitItb hi) 0 (hashSlot (hitItb hi) hi.hash) = some after :=
      ⟨_, if_pos normal⟩
    obtain ⟨after, ran⟩ := unlinked
    simp only [itbAct, ran]
    exact ⟨_, rfl, rfl⟩
  · exact absurd source (by simp only [plain, Bool.false_eq_true, not_false_eq_true])
  · exact ⟨_, rfl, rfl⟩
  all_goals
    rcases asks with asks | asks | asks | asks
    · exact absurd asks lookup
    · exact absurd asks update
    · exact absurd asks unlink
    · exact absurd asks linkAdd

/-- A new entry is created in an empty block. -/
theorem emptyItb_plan (creates : CreatesMissing hi.flag) :
    itbPlan (emptyItb 0) hi = some (.dirty .create) := by
  have missing : planMissing hi = .dirty .create :=
    if_pos (Bool.or_eq_true_iff.mpr creates)
  have find : itbFind (emptyItb 0) hi (2 * (emptyItb 0).total + 1)
      (hashSlot (emptyItb 0) hi.hash) = some none := by
    have slot : hashSlot (emptyItb 0) hi.hash = 0 := Nat.mod_one _
    rw [slot]
    rfl
  unfold itbPlan
  rw [find, ← missing]

/-- It has room for one. -/
theorem emptyItb_adds (hmi : Hmi) (hi : HvfsIndex) : (itbAddIte hmi (emptyItb 0) hi).err = 0 := rfl

end Successes

/-! ### The condition is needed -/

section Needed

variable {r : RequestBuffer} {hi : HvfsIndex}

/-- When every search that succeeds keeps within the bounds, the lengths fit. -/
theorem searchFits_of_bounded
    (asks : ¬CreatesMissing hi.flag → Flag.has hi.flag INDEX_LOOKUP = true ∨
      Flag.has hi.flag INDEX_MDU_UPDATE = true ∨ Flag.has hi.flag INDEX_UNLINK = true ∨
      Flag.has hi.flag INDEX_LINK_ADD = true)
    (bounded : ∀ hmi i result, itbSearch hmi i hi = some result → result.err = 0 →
      ∀ access ∈ itbSearchAccess r hi i, InBounds r access) :
    SearchFits r hi.flag hi.data := by
  have created : CreatesMissing hi.flag → NameFits r ∧ CreateFits r hi.flag hi.data := by
    intro creates
    have plan := emptyItb_plan creates
    have searched : itbSearch ⟨0, 0⟩ (emptyItb 0) hi = some (itbAddIte ⟨0, 0⟩ (emptyItb 0) hi) := by
      unfold itbSearch
      rw [plan]
      rfl
    have within : ∀ access ∈ iteCreateAccess r hi, InBounds r access := by
      intro access member
      refine bounded ⟨0, 0⟩ (emptyItb 0) _ searched (emptyItb_adds _ hi) access ?_
      refine List.mem_append_right _ ?_
      rw [plan]
      exact member
    exact ⟨nameAccess_bounded.mp fun access member => within access (List.mem_append_left _ member),
      createPayloadAccess_bounded.mp fun access member =>
        within access (List.mem_append_right _ member)⟩
  refine ⟨fun compares => ?_, created, fun updates => ?_⟩
  · by_cases creates : CreatesMissing hi.flag
    · exact (created creates).1.1
    · obtain ⟨result, searched, ok⟩ := hitItb_succeeds ⟨0, 0⟩ compares.2 creates (asks creates)
      refine bounded ⟨0, 0⟩ (hitItb hi) result searched ok (.read r.nameAt r.nameSize) ?_
      refine List.mem_append_left _ ?_
      rw [hitItb_findAccess compares]
      exact List.mem_singleton_self _
  · have plan := hitItb_updates updates
    have searched : ∃ result, itbSearch ⟨0, 0⟩ (hitItb hi) hi = some result ∧ result.err = 0 := by
      unfold itbSearch
      rw [plan]
      exact ⟨_, rfl, rfl⟩
    obtain ⟨result, searched, ok⟩ := searched
    refine iteUpdateAccess_bounded.mp fun access member => ?_
    refine bounded ⟨0, 0⟩ (hitItb hi) result searched ok access (List.mem_append_right _ ?_)
    rw [plan]
    exact member

end Needed

/-! ### The handlers -/

section Handlers

variable {r : RequestBuffer} {op : ClientOp} {hvfsHash : U64 → List U8 → U64} {hi : HvfsIndex}

/-- A pointer that is the length is set to the length. -/
theorem plainIndex_data {flag : U32} {request : ClientRequest}
    (pointer : request.hi.data.ptr = request.dlen) :
    (plainIndex flag hvfsHash request).data = request.hi.data := by
  unfold plainIndex
  rw [← pointer]

/-- A null pointer leads to no update. -/
theorem payloadAt_null {address : U64} (null : address = 0) :
    { r.payloadAt address with ptr := 0, mu := none } = r.payloadAt address := by
  unfold RequestBuffer.payloadAt
  simp only [null, if_true]

/-- The index of a handler has the handler's flags and the payload at its pointer. -/
theorem index_some (found : r.index hvfsHash op = some hi) :
    ¬r.Dropped op ∧ hi.flag = r.flag op ∧ hi.data = r.payload op := by
  unfold RequestBuffer.Dropped RequestBuffer.flag
  have dlen : (r.client op).dlen = r.header.dlen := rfl
  have flag : (r.client op).hi.flag = r.header.flag := rfl
  have data : (r.client op).hi.data = r.payload op := rfl
  have pointer : (r.payload op).ptr = r.pointer op := rfl
  rw [← flag, ← dlen, ← data]
  rw [← data] at pointer
  unfold RequestBuffer.index at found
  cases op with
  | lookup | linkadd | unlink =>
    have pointer := pointer.trans dlen.symm
    generalize r.client = client at found pointer
    cases found
    exact ⟨by simp, rfl, plainIndex_data pointer⟩
  | create =>
    have null : (r.client .create).dlen = 0 →
        { (r.client .create).hi.data with ptr := 0, mu := none } =
          (r.client .create).hi.data := by
      rw [data, dlen]
      intro none
      have zero : r.pointer .create = 0 := by
        simp only [RequestBuffer.pointer, none, if_true]
      exact payloadAt_null zero
    generalize r.client = client at found null
    simp only [createIndex] at found
    split at found
    · next none =>
      cases found
      exact ⟨by simp, rfl, null (eq_of_beq none)⟩
    · cases found
      exact ⟨by simp, rfl, rfl⟩
  | update =>
    generalize r.client = client at found
    simp only [updateIndex] at found
    split at found
    · cases found
    · next some =>
      cases found
      exact ⟨fun dropped => some (beq_iff_eq.mpr dropped.2), rfl, rfl⟩
  | symlink =>
    generalize r.client = client at found
    simp only [symlinkIndex] at found
    split at found
    · cases found
    · next some =>
      cases found
      exact ⟨fun dropped => some (beq_iff_eq.mpr dropped.2), rfl, rfl⟩

/-- A request that is not dropped is searched for. -/
theorem index_exists (kept : ¬r.Dropped op) : ∃ hi, r.index hvfsHash op = some hi := by
  have some : (op = .update ∨ op = .symlink) → ((r.client op).dlen == 0) = false := by
    intro drops
    exact beq_eq_false_iff_ne.mpr fun none => kept ⟨drops, none⟩
  unfold RequestBuffer.index
  generalize r.client = client at some
  cases op with
  | lookup | linkadd | unlink => exact ⟨_, rfl⟩
  | create =>
    simp only [createIndex]
    split
    · exact ⟨_, rfl⟩
    · exact ⟨_, rfl⟩
  | update =>
    simp only [updateIndex, some (Or.inl rfl), Bool.false_eq_true, if_false]
    exact ⟨_, rfl⟩
  | symlink =>
    simp only [symlinkIndex, some (Or.inr rfl), Bool.false_eq_true, if_false]
    exact ⟨_, rfl⟩

/-- Every handler asks for something. -/
theorem flag_asks (r : RequestBuffer) (op : ClientOp) (notCreates : ¬CreatesMissing (r.flag op)) :
    Flag.has (r.flag op) INDEX_LOOKUP = true ∨ Flag.has (r.flag op) INDEX_MDU_UPDATE = true ∨
      Flag.has (r.flag op) INDEX_UNLINK = true ∨ Flag.has (r.flag op) INDEX_LINK_ADD = true := by
  have own : ∀ {extra mask : U32}, Flag.has extra mask = true →
      Flag.has (r.header.flag ||| extra) mask = true := by
    intro extra mask has
    rw [Flag.has_or, has, Bool.or_true]
  cases op with
  | lookup => exact Or.inl (own (by decide))
  | create => exact absurd (Or.inl (own (by decide))) notCreates
  | update => exact Or.inr (Or.inl (own (by decide)))
  | linkadd => exact Or.inr (Or.inr (Or.inr (own (by decide))))
  | unlink => exact Or.inr (Or.inr (Or.inl (own (by decide))))
  | symlink => exact absurd (Or.inl (own (by decide))) notCreates

/-- A request that passes the checks, with memory for the reply. -/
theorem handlerPlanOf_checked (whole : sizeofHvfsIndex ≤ r.len) (data : r.datacheck = true)
    (env : Environment) (chance : Chance) :
    handlerPlanOf r op env chance =
      if chance.hmr then
        match r.index env.hvfsHash op with
        | none => .free
        | some hi => .search hi
      else .free := by
  unfold handlerPlanOf handlerPlan
  simp only [RequestBuffer.client, not_lt.mpr whole, data, if_false, Bool.not_true,
    Bool.false_eq_true]
  cases chance.hmr <;> rfl

end Handlers

/-- A request that is bounded in the states in which it succeeds fits. -/
theorem PayloadBounded.fits {r : RequestBuffer} {op : ClientOp} (bounded : PayloadBounded r op)
    (whole : sizeofHvfsIndex ≤ r.len) (data : r.datacheck = true) : RequestFits r op := by
  have checked : ¬(r.len < sizeofHvfsIndex ∨ r.datacheck = false) := by
    rintro (short | none)
    · exact absurd whole (not_le.mpr short)
    · rw [data] at none
      cases none
  let env : Environment := ⟨fun _ _ => 0, 0, fun _ => none⟩
  refine ⟨fun byName unhashed => ?_, fun kept notItb => ?_⟩
  · -- without memory for the reply the request is dropped after the hash
    rcases bounded env { hmr := false } ⟨⟨0, 0⟩, fun _ => none⟩ with ⟨err, after, ended, _⟩ | all
    · rw [handlerPlanOf_checked whole data] at ended
      cases ended
    · refine all (.read r.nameAt r.header.namelen.toNat) ?_
      unfold handlerAccess hvfsHashAccess
      rw [if_neg checked]
      refine List.mem_append_left _ ?_
      rw [byName, unhashed]
      exact List.mem_singleton_self _
  · obtain ⟨hi, found⟩ : ∃ hi, r.index env.hvfsHash op = some hi := index_exists kept
    obtain ⟨_, flag, payload⟩ := index_some found
    rw [← flag, ← payload]
    rw [← flag] at notItb
    refine searchFits_of_bounded (fun notCreates => ?_) fun hmi i result searched ok => ?_
    · rw [flag] at notCreates ⊢
      exact flag_asks r op notCreates
    · have plan : handlerPlanOf r op env {} = .search hi := by
        rw [handlerPlanOf_checked whole data, found]
        rfl
      have ended : serve env ⟨hmi, fun _ => some i⟩ (handlerPlanOf r op env {}) {} =
          some (.replied 0, ⟨result.hmi, Function.update (fun _ => some i) (hi.puuid, hi.itbid)
            (some result.itb)⟩) := by
        have cow : itbSearchCow hmi i hi none = itbSearch hmi i hi := rfl
        rw [plan]
        simp only [serve, mdsCbhtSearch, reachItb, cbhtItbHit, notItb, cow, searched,
          Option.map_some, ok, Bool.true_eq_false, and_false, Bool.false_eq_true, if_false]
      rcases bounded env {} ⟨hmi, fun _ => some i⟩ with ⟨err, after, failed, nonzero⟩ | all
      · rw [ended] at failed
        cases failed
        exact absurd rfl nonzero
      · intro access touched
        refine all access ?_
        unfold handlerAccess
        rw [if_neg checked, plan]
        refine List.mem_append_right _ ?_
        unfold mdsCbhtSearchAccess
        simp only [reachItb, notItb]
        exact touched

/-- A request that fits is bounded in every state. -/
theorem RequestFits.bounded {r : RequestBuffer} {op : ClientOp}
    (fits : sizeofHvfsIndex ≤ r.len → r.datacheck = true → RequestFits r op) :
    PayloadBounded r op := by
  intro env chance m
  by_cases checked : r.len < sizeofHvfsIndex ∨ r.datacheck = false
  · right
    unfold handlerAccess
    rw [if_pos checked]
    rintro access ⟨⟩
  · have whole : sizeofHvfsIndex ≤ r.len := not_lt.mp fun short => checked (Or.inl short)
    have data : r.datacheck = true := Bool.not_eq_false _ ▸ fun none => checked (Or.inr none)
    have fits := fits whole data
    right
    intro access touched
    unfold handlerAccess at touched
    rw [if_neg checked, handlerPlanOf_checked whole data] at touched
    rcases List.mem_append.mp touched with hashed | searched
    · unfold hvfsHashAccess at hashed
      split_ifs at hashed with hashes
      · rw [Bool.and_eq_true, beq_iff_eq] at hashes
        cases List.mem_singleton.mp hashed
        exact fits.hashed hashes.1 hashes.2
      · exact absurd hashed List.not_mem_nil
    · split at searched
      · next hi plan =>
        split_ifs at plan
        rcases found : r.index env.hvfsHash op with _ | other
        · rw [found] at plan
          cases plan
        · rw [found] at plan
          cases plan
          obtain ⟨kept, flag, payload⟩ := index_some found
          refine mdsCbhtSearchAccess_bounded (fun notItb => ?_) access searched
          rw [flag] at notItb ⊢
          rw [payload]
          exact fits.searched kept notItb
      · exact absurd searched List.not_mem_nil

/-- What a handler touches lies within the request and the entry, in every state of the server,
exactly when the lengths in the request fit. -/
theorem payloads_bounded_iff (r : RequestBuffer) (op : ClientOp) :
    PayloadBounded r op ↔
      (sizeofHvfsIndex ≤ r.len → r.datacheck = true → RequestFits r op) :=
  ⟨PayloadBounded.fits, RequestFits.bounded⟩

/-- A request with a name of 300 bytes, all of them received. -/
def longName : RequestBuffer where
  memory address := if address = 4096 then 44 else if address = 4097 then 1 else 0
  base := 4096
  len := sizeofHvfsIndex + 300
  datacheck := true
  room := by decide

/-- A create with this name writes behind the name of the entry. -/
theorem payloads_overflow : sizeofHvfsIndex ≤ longName.len ∧ ¬PayloadBounded longName .create := by
  have whole : sizeofHvfsIndex ≤ longName.len := by decide
  refine ⟨whole, fun bounded => ?_⟩
  have fits := bounded.fits whole rfl
  have kept : ¬longName.Dropped .create := by rintro ⟨_ | _, _⟩ <;> contradiction
  obtain ⟨⟨_, room⟩, _⟩ := (fits.searched kept (by decide)).created (Or.inl (by decide))
  exact absurd room (by decide)

end Hvfs
