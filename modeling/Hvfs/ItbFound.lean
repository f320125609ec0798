/-
This file follows a new entry from its creation on. A request by uuid finds it
as long as nobody unlinks it, provided that `ite_create` has kept the uuid and
the hash that `itb_add_ite` wrote, and that no entry before it on its chain has
the same two.
-/

import Hvfs.ItbUnlinked
import Hvfs.Uuid

namespace Hvfs

open Transition

/-! ### Runs on one block -/

/-- A search with any request that keeps to its entry, or a pass of `async_unlink_ite`. -/
inductive ItbOp
  | search (hi : HvfsIndex) (fits : hi.Fits)
  | reclaim (limit : Nat) (count : UnlinkCount)

/-- The block and the uuid counters after an operation. -/
def itbOpStep (state : Hmi × Itb) : ItbOp → Option (Hmi × Itb)
  | .search hi _ => (itbSearch state.1 state.2 hi).map fun result => (result.hmi, result.itb)
  | .reclaim limit count => (asyncUnlinkIte limit state.2 count).map fun pass => (state.1, pass.1)

/-- The operation does not unlink the entry. -/
def SparesEntry (nr : Nat) (state : Hmi × Itb) : ItbOp → Prop
  | .search hi _ => ∀ cell, itbPlan state.2 hi = some (.dirty (.unlink cell)) →
    (state.2.index cell).entry ≠ nr
  | .reclaim _ _ => True

/-! ### Looking for an entry by its uuid -/

/-- A LOOKUP by uuid that is not for shadows. -/
structure UuidLookup (uuid hash : U64) (hi : HvfsIndex) : Prop where
  lookup : Flag.has hi.flag INDEX_LOOKUP = true
  byUuid : Flag.has hi.flag INDEX_BY_UUID = true
  default : Flag.has hi.flag INDEX_ITE_SHADOW = false
  uuid : hi.uuid = uuid
  hash : hi.hash = hash

/-- The entry has the uuid and the hash. -/
def HasKey (uuid hash : U64) (e : Ite) : Prop := e.uuid = uuid ∧ e.hash = hash

/-- Every LOOKUP by the uuid and the hash hits the entry `nr` and is answered from it. -/
def HitBy (i : Itb) (nr : Nat) (uuid hash : U64) : Prop :=
  ∀ hi, UuidLookup uuid hash hi → ∃ cell,
    itbFind i hi (2 * i.total + 1) (hashSlot i hi.hash) = some (some cell) ∧
    (i.index cell).entry = nr ∧ itbPlan i hi = some (.done 0 (some (mduReply (i.ite nr))))

/-- On the chain of the hash, the entries before `nr` that have the uuid and the hash as well are all
UNLINKED. -/
def FirstOfKey (i : Itb) (nr : Nat) (uuid hash : U64) : Prop :=
  ∃ front place rest, CellPath i.next (hashSlot i hash) (front ++ place :: rest) ∧
    (i.index place).entry = nr ∧
    ∀ other ∈ front, HasKey uuid hash (i.ite (i.index other).entry) →
      (i.ite (i.index other).entry).state = ITE_UNLINKED

/-- The uuid that is due to a new entry: the one given for a copy, and else the one allocated. -/
def uuidDue (hmi : Hmi) (hi : HvfsIndex) : U64 :=
  if Flag.has hi.flag INDEX_CREATE_COPY then hi.uuid else (newUuid hmi hi).1

/-- A creation that its block accepts, for a request that keeps to its entry. -/
structure AcceptedCreation extends Creation where
  hmi : Hmi
  represented : ∃ chain, Shape itb chain
  accepted : toCreation.Accepted
  fits : hi.Fits

/-- The block and the uuid counters after the creation. -/
def AcceptedCreation.state (call : AcceptedCreation) : Hmi × Itb :=
  ((itbAddIte call.hmi call.itb call.hi).hmi, (itbAddIte call.hmi call.itb call.hi).itb)

/-- The call stored the uuid and the hash of its request, and in the later block `i` a LOOKUP by them
hits its entry. -/
structure FoundByUuid (call : AcceptedCreation) (i : Itb) : Prop where
  stored : HasKey (uuidDue call.hmi call.hi) call.hi.hash (call.state.2.ite call.nr)
  hit : HitBy i call.nr (uuidDue call.hmi call.hi) call.hi.hash

/-- The creations of which `ite_create` keeps the key: a copy for the uuid zero, links and symbolic
links, and plain entries whose hash is zero in the bytes that a pointer has. -/
def KeepsKey (hi : HvfsIndex) : Prop :=
  if Flag.has hi.flag INDEX_CREATE_COPY then hi.uuid = 0
  else Flag.has hi.flag INDEX_CREATE_LINK = true ∨ Flag.has hi.flag INDEX_SYMLINK = true ∨
    hi.hash &&& ptrMask = 0

theorem iteCreate_hash (hi : HvfsIndex) (e : Ite) :
    (iteCreate hi e).hash =
      if Flag.has hi.flag INDEX_CREATE_COPY || Flag.has hi.flag INDEX_CREATE_LINK ||
        Flag.has hi.flag INDEX_SYMLINK then e.hash else e.hash &&& ~~~ptrMask := by
  unfold iteCreate
  cases Flag.has hi.flag INDEX_CREATE_COPY
  · cases Flag.has hi.flag INDEX_CREATE_LINK
    · cases Flag.has hi.flag INDEX_SYMLINK
      · simp only [Bool.false_eq_true, if_false, Bool.or_self]
        cases hi.data.mu with
        | none => rfl
        | some mu =>
          simp only
          split_ifs <;> rfl
      · simp only [Bool.false_eq_true, if_false, if_true, Bool.or_true]
        split_ifs <;> rfl
    · rfl
  · rfl

/-- Clearing bits keeps a word exactly when they are clear. -/
theorem clear_eq_iff (word mask : U64) : word &&& ~~~mask = word ↔ word &&& mask = 0 := by
  constructor
  · intro same
    rw [← same, BitVec.and_assoc, BitVec.and_comm (~~~mask), BitVec.and_not_self]
    exact BitVec.and_zero
  · intro clear
    ext k inside
    have bit : (word &&& mask)[k] = false := by
      rw [clear]
      exact BitVec.getElem_zero inside
    rw [BitVec.getElem_and, Bool.and_eq_false_iff] at bit
    rw [BitVec.getElem_and, BitVec.getElem_not]
    rcases bit with unset | unmasked
    · rw [unset, Bool.false_and]
    · rw [unmasked, Bool.not_false, Bool.and_true]

/-- What a new entry is found by is right exactly when its creation keeps the key. -/
theorem hasKey_created_iff (hmi : Hmi) (hi : HvfsIndex) :
    HasKey (uuidDue hmi hi) hi.hash (iteCreate hi (newIte hmi hi).1) ↔ KeepsKey hi := by
  have uuid : (newIte hmi hi).1.uuid = (newUuid hmi hi).1 := rfl
  have hash : (newIte hmi hi).1.hash = hi.hash := rfl
  unfold HasKey KeepsKey uuidDue
  rw [iteCreate_uuid, iteCreate_hash, uuid, hash]
  cases copy : Flag.has hi.flag INDEX_CREATE_COPY
  · simp only [Bool.false_eq_true, if_false, Bool.false_or, true_and]
    cases Flag.has hi.flag INDEX_CREATE_LINK
    · cases Flag.has hi.flag INDEX_SYMLINK
      · simp only [Bool.or_self, Bool.false_eq_true, if_false, false_or]
        exact clear_eq_iff hi.hash ptrMask
      · simp
    · simp
  · have none : (newUuid hmi hi).1 = 0 := by
      rw [newUuid, if_pos copy]
    simp only [if_true, Bool.true_or, none, and_true]
    exact eq_comm

/-! ### An operation keeps the key -/

section Keeps

variable {hmi : Hmi} {i : Itb} {chain : Nat → List Nat} {nr : Nat}

theorem iteUpdate_key (hi : HvfsIndex) (e : Ite) :
    (iteUpdate hi e).uuid = e.uuid ∧ (iteUpdate hi e).hash = e.hash := by
  unfold iteUpdate
  split_ifs
  · cases hi.data.mu <;> exact ⟨rfl, rfl⟩
  · exact ⟨rfl, rfl⟩
  · exact ⟨rfl, rfl⟩
  · exact ⟨rfl, rfl⟩

theorem iteUnlinkNormal_key (e : Ite) :
    (iteUnlinkNormal e).uuid = e.uuid ∧ (iteUnlinkNormal e).hash = e.hash := by
  unfold iteUnlinkNormal
  simp only
  split_ifs <;> exact ⟨rfl, rfl⟩

/-- Writing an entry with the key that it had. -/
theorem setIte_key (target : Nat) {e : Ite}
    (same : e.uuid = (i.ite target).uuid ∧ e.hash = (i.ite target).hash) :
    ((i.setIte target e).ite nr).uuid = (i.ite nr).uuid ∧
      ((i.setIte target e).ite nr).hash = (i.ite nr).hash := by
  rw [setIte_ite, Function.update_apply]
  split_ifs with here
  · rw [here]
    exact same
  · exact ⟨rfl, rfl⟩

/-- A search leaves the keys of the entries in use. -/
theorem itbSearch_key (shape : Shape i chain) (set : i.bitmap nr = true) {hi : HvfsIndex}
    {result : SearchResult} (search : itbSearch hmi i hi = some result) :
    (result.itb.ite nr).uuid = (i.ite nr).uuid ∧ (result.itb.ite nr).hash = (i.ite nr).hash := by
  rw [itbSearch_eq shape] at search
  rcases found : (chain (hashSlot i hi.hash)).find? (i.matchAt hi) with _ | cell
  · rw [found] at search
    simp only at search
    split_ifs at search with creates
    · cases search
      by_cases notFull : i.entries < (i.total : Int)
      · obtain ⟨fresh, after, chainAfter, added, clear, _, ite⟩ := itbAddIte_added
          shape notFull hmi hi
        have other : nr ≠ fresh := by
          rintro rfl
          rw [set] at clear
          cases clear
        rw [added]
        simp only [ite, Function.update_of_ne other, and_self]
      · rw [itbAddIte_full (not_lt.mp notFull)]
        exact ⟨rfl, rfl⟩
    · cases search
      exact ⟨rfl, rfl⟩
  · rw [found] at search
    simp only at search
    rcases planFound_cases i hi cell with ⟨err, data, plan⟩ | plan | plan | ⟨plan, unlinks⟩ <;>
      rw [plan] at search <;> simp only [itbAct] at search
    · cases search
      exact ⟨rfl, rfl⟩
    · cases search
      exact setIte_key _ (iteUpdate_key hi _)
    · cases search
      exact setIte_key _ ⟨rfl, rfl⟩
    · unfold iteUnlink at search
      by_cases normal : Flag.has (i.ite (i.index cell).entry).flag ITE_FLAG_NORMAL = true
      · simp only [normal, if_true] at search
        cases search
        exact setIte_key _ (iteUnlinkNormal_key _)
      · by_cases link : Flag.has (i.ite (i.index cell).entry).flag ITE_FLAG_LS = true
        · obtain ⟨after, chainAfter, deleted, dropped⟩ :=
            itbDelIte_dropped shape (Found.member found)
          simp only [normal, link, if_true, deleted] at search
          cases search
          rw [dropped.ite]
          exact ⟨rfl, rfl⟩
        · simp only [normal, link] at search
          cases search
          exact ⟨rfl, rfl⟩

/-- A search that does not unlink the entry leaves it on its chain, with its flags. -/
theorem Changed.spared {hi : HvfsIndex} {after : Itb} {chainAfter : Nat → List Nat} {slot : Nat}
    (shape : Shape i chain) (holds : Holds i chain slot nr)
    (spares : ∀ cell, Found i chain hi cell → Unlinks hi → (i.index cell).entry ≠ nr)
    (changed : Changed hmi i chain hi after chainAfter) :
    Holds after chainAfter slot nr ∧ (after.ite nr).flag = (i.ite nr).flag := by
  cases changed with
  | same => exact ⟨holds, rfl⟩
  | added _ _ clear added ite =>
    refine ⟨(added.holds slot nr).mpr (Or.inl holds), ?_⟩
    rw [ite, Function.update_of_ne]
    rintro rfl
    exact shape.not_holds_of_clear clear holds
  | @written cell e _ _ flag =>
    refine ⟨holds, ?_⟩
    rw [setIte_ite, Function.update_apply]
    split_ifs with here
    · rw [here, flag]
    · rfl
  | @marked cell found unlinks _ _ =>
    refine ⟨holds, ?_⟩
    change ((i.setIte _ _).ite nr).flag = _
    rw [setIte_ite, Function.update_of_ne (spares cell found unlinks).symm]
  | @dropped cell _ _ found unlinks _ _ dropped =>
    refine ⟨(dropped.holds slot nr).mpr ⟨holds, (spares cell found unlinks).symm⟩, ?_⟩
    rw [dropped.ite]

end Keeps

/-! ### Runs keep the entry -/

/-- The entry is active, on the chain of its hash, and has its key. -/
def Kept (nr : Nat) (uuid hash : U64) (state : Hmi × Itb) : Prop :=
  ∃ chain, Shape state.2 chain ∧ Holds state.2 chain (hashSlot state.2 hash) nr ∧
    HasKey uuid hash (state.2.ite nr) ∧ (state.2.ite nr).state = ITE_ACTIVE

/-- The plan of a search that found an entry. -/
theorem Found.plan {i : Itb} {chain : Nat → List Nat} {hi : HvfsIndex} {cell : Nat}
    (shape : Shape i chain) (found : Found i chain hi cell) :
    itbPlan i hi = some (planFound i hi cell) := by
  unfold itbPlan
  rw [itbFind_eq shape hi (hashSlot_lt i hi.hash), show _ = some cell from found]

theorem itbOpStep_kept {nr : Nat} {uuid hash : U64} {state next : Hmi × Itb} {op : ItbOp}
    (kept : Kept nr uuid hash state) (spares : SparesEntry nr state op)
    (stepped : itbOpStep state op = some next) : Kept nr uuid hash next := by
  obtain ⟨chain, shape, holds, ⟨sameUuid, sameHash⟩, active⟩ := kept
  cases op with
  | search hi _ =>
    obtain ⟨result, chainAfter, search, changed⟩ := itbSearch_changed shape state.1 hi
    rw [itbOpStep, search] at stepped
    cases stepped
    have spared : ∀ cell, Found state.2 chain hi cell → Unlinks hi →
        (state.2.index cell).entry ≠ nr := by
      intro cell found unlinks
      exact spares cell (by rw [found.plan shape, planFound_unlinks unlinks])
    obtain ⟨holdsAfter, flag⟩ := changed.spared shape holds spared
    have set : state.2.bitmap nr = true :=
      (shape.usage.bits nr).mpr (shape.chains.mem_held.mpr ⟨_, holds⟩)
    obtain ⟨uuidAfter, hashAfter⟩ := itbSearch_key shape set search
    refine ⟨chainAfter, changed.shape shape, ?_, ⟨uuidAfter.trans sameUuid,
      hashAfter.trans sameHash⟩, ?_⟩
    · rw [hashSlot_congr changed.adepth hash]
      exact holdsAfter
    · unfold Ite.state at active ⊢
      rw [flag]
      exact active
  | reclaim limit count =>
    obtain ⟨after, chainAfter, countAfter, pass, passed⟩ := asyncUnlinkIte_passed shape limit count
    rw [itbOpStep, pass] at stepped
    cases stepped
    refine ⟨chainAfter, passed.shape, ?_, ?_, ?_⟩
    · rw [hashSlot_congr passed.adepth hash]
      refine passed.kept _ _ holds ?_
      rw [active]
      decide
    · rw [passed.ite]
      exact ⟨sameUuid, sameHash⟩
    · rw [passed.ite]
      exact active

/-- A LOOKUP by uuid matches the entries of that uuid and hash which it may see. -/
theorem UuidLookup.match_iff {uuid hash : U64} {hi : HvfsIndex} (look : UuidLookup uuid hash hi)
    (e : Ite) : iteMatch e hi = true ↔
      HasKey uuid hash e ∧ e.state ≠ ITE_UNLINKED ∧
        (Flag.has hi.flag INDEX_ITE_ACTIVE = true → e.state = ITE_ACTIVE) := by
  unfold iteMatch HasKey
  simp only [look.default, look.byUuid, Bool.false_and, Bool.false_eq_true, if_false, if_true,
    Bool.not_false, Bool.and_true, beq_iff_eq]
  by_cases hidden : (Flag.has hi.flag INDEX_ITE_ACTIVE && e.state != ITE_ACTIVE) = true
  · rw [if_pos hidden]
    rw [Bool.and_eq_true, bne_iff_ne] at hidden
    exact iff_of_false Bool.false_ne_true fun ⟨_, _, active⟩ => hidden.2 (active hidden.1)
  · rw [if_neg hidden]
    have active : Flag.has hi.flag INDEX_ITE_ACTIVE = true → e.state = ITE_ACTIVE := by
      intro asked
      by_contra other
      exact hidden (by rw [asked, Bool.true_and, bne_iff_ne]; exact other)
    by_cases unlinked : e.state = ITE_UNLINKED
    · rw [if_pos unlinked]
      exact iff_of_false Bool.false_ne_true fun ⟨_, visible, _⟩ => visible unlinked
    · rw [if_neg unlinked, Bool.and_eq_true, beq_iff_eq, beq_iff_eq, look.uuid, look.hash]
      exact ⟨fun key => ⟨key, unlinked, active⟩, fun ⟨key, _⟩ => key⟩

/-- The LOOKUP by uuid of a client that names nothing else. -/
def uuidIndex (uuid hash : U64) : HvfsIndex where
  flag := INDEX_LOOKUP ||| INDEX_BY_UUID
  uuid := uuid
  hash := hash
  itbid := 0
  puuid := 0
  data := ⟨0, none, {}, ⟨0, 0, 0⟩, 0⟩
  name := []

theorem uuidIndex_lookup (uuid hash : U64) : UuidLookup uuid hash (uuidIndex uuid hash) where
  lookup := show Flag.has (INDEX_LOOKUP ||| INDEX_BY_UUID) INDEX_LOOKUP = true by decide
  byUuid := show Flag.has (INDEX_LOOKUP ||| INDEX_BY_UUID) INDEX_BY_UUID = true by decide
  default := show Flag.has (INDEX_LOOKUP ||| INDEX_BY_UUID) INDEX_ITE_SHADOW = false by decide
  uuid := rfl
  hash := rfl

/-- An entry that is kept is hit exactly when no visible entry before it has its key. -/
theorem Kept.hitBy_iff {nr : Nat} {uuid hash : U64} {state : Hmi × Itb}
    (kept : Kept nr uuid hash state) :
    HitBy state.2 nr uuid hash ↔ FirstOfKey state.2 nr uuid hash := by
  obtain ⟨chain, shape, ⟨place, member, entry⟩, key, active⟩ := kept
  have path := shape.chains.path_of_mem member
  constructor
  · intro hit
    obtain ⟨cell, found, same, _⟩ := hit _ (uuidIndex_lookup uuid hash)
    rw [itbFind_eq shape _ (hashSlot_lt _ _), Option.some.injEq,
      List.find?_eq_some_iff_append] at found
    obtain ⟨_, front, rest, cells, missed⟩ := found
    rw [show (uuidIndex uuid hash).hash = hash from rfl] at cells
    rw [cells] at path
    refine ⟨front, cell, rest, path, same, fun other before keyOther => ?_⟩
    by_contra visible
    have matched : state.2.matchAt (uuidIndex uuid hash) other = true :=
      ((uuidIndex_lookup uuid hash).match_iff _).mpr ⟨keyOther, visible, fun asked =>
        absurd asked (show ¬Flag.has (INDEX_LOOKUP ||| INDEX_BY_UUID) INDEX_ITE_ACTIVE = true by
          decide)⟩
    have := missed other before
    rw [matched] at this
    cases this
  · rintro ⟨front, first, rest, pathFirst, entryFirst, hidden⟩ hi look
    have cells : chain (hashSlot state.2 hi.hash) = front ++ first :: rest := by
      rw [look.hash]
      exact path.unique pathFirst
    have found : Found state.2 chain hi first := by
      unfold Found
      rw [List.find?_eq_some_iff_append]
      refine ⟨(look.match_iff _).mpr ?_, front, rest, cells, fun other before => ?_⟩
      · rw [entryFirst, active]
        exact ⟨key, by decide, fun _ => rfl⟩
      · rw [Bool.not_eq_true', Bool.eq_false_iff]
        intro matched
        obtain ⟨keyOther, visible, _⟩ := (look.match_iff _).mp matched
        exact visible (hidden other before keyOther)
    refine ⟨first, ?_, entryFirst, ?_⟩
    · rw [itbFind_eq shape hi (hashSlot_lt _ _)]
      exact congrArg some found
    · rw [found.plan shape]
      simp only [planFound, look.lookup, if_true, entryFirst]

/-- A creation that keeps the key leaves a kept entry. -/
theorem AcceptedCreation.kept (call : AcceptedCreation) (keeps : KeepsKey call.hi) :
    Kept call.nr (uuidDue call.hmi call.hi) call.hi.hash call.state := by
  obtain ⟨chain, shape⟩ := call.represented
  have key := (hasKey_created_iff call.hmi call.hi).mpr keeps
  rw [← (call.accepted.stored call.hmi).2.2] at key
  have notFull : call.itb.entries < (call.itb.total : Int) := by
    have room := call.accepted.1
    omega
  obtain ⟨after, chainAfter, result, _, added, ite⟩ :=
    itbAddIte_first shape notFull call.hmi call.hi (Eq.refl call.nr)
  have active : (after.ite call.nr).state = ITE_ACTIVE := by
    rw [ite, Function.update_self, Ite.state, iteCreate_flag]
    exact newFlag_active call.hi
  unfold AcceptedCreation.state
  rw [result] at key ⊢
  refine ⟨chainAfter, added.shape, (added.holds _ _).mpr (Or.inr ⟨?_, rfl⟩), key, active⟩
  exact hashSlot_congr added.adepth call.hi.hash

/-- In every block that any operations make of the one after a creation without unlinking the entry:
the entry was stored with its uuid and hash and a LOOKUP by them hits it, exactly when `ite_create`
keeps the two and no visible entry before it on its chain has them as well. -/
theorem found_by_uuid_iff (call : AcceptedCreation) (ops : List ItbOp) (final : Hmi × Itb)
    (guarded : Guarded itbOpStep (SparesEntry call.nr) call.state ops)
    (reached : run itbOpStep call.state ops = some final) :
    FoundByUuid call final.2 ↔
      KeepsKey call.hi ∧
        FirstOfKey final.2 call.nr (uuidDue call.hmi call.hi) call.hi.hash := by
  have stored := (call.accepted.stored call.hmi).2.2
  have keeps_iff : HasKey (uuidDue call.hmi call.hi) call.hi.hash (call.state.2.ite call.nr) ↔
      KeepsKey call.hi := by
    rw [← hasKey_created_iff call.hmi call.hi, ← stored]
    exact Iff.rfl
  have kept : KeepsKey call.hi →
      Kept call.nr (uuidDue call.hmi call.hi) call.hi.hash final :=
    fun keeps => guarded_invariant _ (fun state op next good spares stepped =>
      itbOpStep_kept good spares stepped) (call.kept keeps) guarded reached
  constructor
  · rintro ⟨key, hit⟩
    have keeps := keeps_iff.mp key
    exact ⟨keeps, (kept keeps).hitBy_iff.mp hit⟩
  · rintro ⟨keeps, first⟩
    exact ⟨keeps_iff.mpr keeps, (kept keeps).hitBy_iff.mpr first⟩

/-- A file of the hash `hash` is created in an empty block. -/
def createdFile (hash : U64) (fits : (collidingIndex INDEX_CREATE hash 97).Fits) :
    AcceptedCreation where
  itb := emptyItb 3
  hi := collidingIndex INDEX_CREATE hash 97
  hmi := ⟨0, 0⟩
  represented := ⟨_, emptyItb_shape 3⟩
  accepted := show (emptyItb 3).entries + 1 ≤ ((emptyItb 3).total : Int) ∧
    findFirstZeroBit (emptyItb 3).bitmap (emptyItb 3).total < (emptyItb 3).total by decide
  fits := fits

/-- A second file follows it. -/
def nextFile : ItbOp := .search (collidingIndex (INDEX_CREATE ||| INDEX_BY_NAME) 0 98) (by decide)

theorem found_by_uuid_iff_file :
    ∃ final, run itbOpStep (createdFile 0 (by decide)).state [nextFile] = some final ∧
      (FoundByUuid (createdFile 0 (by decide)) final.2 ↔
        KeepsKey (createdFile 0 (by decide)).hi ∧
          FirstOfKey final.2 (createdFile 0 (by decide)).nr 1 0) := by
  refine ⟨_, rfl, found_by_uuid_iff (createdFile 0 (by decide)) [nextFile] _ ⟨fun _ plan => ?_,
    fun _ _ => trivial⟩ rfl⟩
  cases (show some (SearchPlan.dirty .create) = some (.dirty (.unlink _)) from plan)

/-- A plain file does not keep its hash. -/
theorem file_not_found_by_uuid :
    ¬FoundByUuid (createdFile 8 (by decide)) (createdFile 8 (by decide)).state.2 :=
  fun found => absurd found.stored.2 (by decide)

end Hvfs
