/-
This file is about the names in one block under the handlers `mds_create` and
`mds_symlink`, with every combination of client flags but INDEX_CREATE_FORCE.

A block keeps its names unique as long as a request for a name that is already
active there is searched in a way that finds it. `mds_create` asks for a search
by name; `mds_symlink` does not, and a client can turn the search by name off
with other flags.
-/

import Hvfs.Server
import Hvfs.Library.Transition

namespace Hvfs

open Transition

/-! ### Unique names -/

/-- Two entries with the same name field. -/
def SameName (e other : Ite) : Prop := ∀ k, e.name.getD k 0 = other.name.getD k 0

/-- No two active entries of one hash slot have the same name. -/
def UniqueNames (i : Itb) : Prop :=
  ∀ slot cell other, OnChain i cell slot → OnChain i other slot →
    (i.ite (i.index cell).entry).state = ITE_ACTIVE →
    (i.ite (i.index other).entry).state = ITE_ACTIVE →
    SameName (i.ite (i.index cell).entry) (i.ite (i.index other).entry) → cell = other

/-- The name of the request is active in the block. -/
def ActiveName (i : Itb) (hi : HvfsIndex) : Prop :=
  ∃ cell, OnChain i cell (hashSlot i hi.hash) ∧
    (i.ite (i.index cell).entry).state = ITE_ACTIVE ∧
    nameMatch (i.ite (i.index cell).entry).name hi.name = true

/-- The search for a name that is active in the block finds an entry and answers that it exists:
it compares names, or it happens to hit another entry of the chain in its own way. -/
structure DuplicateCheck (i : Itb) (hi : HvfsIndex) : Prop where
  lookup : Flag.has hi.flag INDEX_LOOKUP = false
  readdir : Flag.has hi.flag INDEX_BY_ITB = false
  finds : (Flag.has hi.flag INDEX_BY_NAME = true ∧ Flag.has hi.flag INDEX_BY_UUID = false ∧
      Flag.has hi.flag INDEX_ITE_SHADOW = false) ∨
    ∃ cell, OnChain i cell (hashSlot i hi.hash) ∧ iteMatch (i.ite (i.index cell).entry) hi = true

section Names

variable {i : Itb} {chain : Nat → List Nat} {hi : HvfsIndex}

/-- The names of a block, said of its entries. -/
theorem uniqueNames_iff (shape : Shape i chain) :
    UniqueNames i ↔ ∀ slot nr other, Holds i chain slot nr → Holds i chain slot other →
      (i.ite nr).state = ITE_ACTIVE → (i.ite other).state = ITE_ACTIVE →
      SameName (i.ite nr) (i.ite other) → nr = other := by
  constructor
  · rintro unique slot nr other ⟨cell, member, rfl⟩ ⟨cellOther, memberOther, rfl⟩ active
      activeOther same
    rw [unique slot cell cellOther (shape.chains.onChain_iff.mpr member)
      (shape.chains.onChain_iff.mpr memberOther) active activeOther same]
  · intro unique slot cell other onChain onChainOther active activeOther same
    have member := shape.chains.onChain_iff.mp onChain
    have memberOther := shape.chains.onChain_iff.mp onChainOther
    exact shape.entry_inj member memberOther (unique slot _ _ ⟨cell, member, rfl⟩
      ⟨other, memberOther, rfl⟩ active activeOther same)

/-- A copy has the names of the original. -/
theorem itbCow_uniqueNames (shape : Shape i chain) (memory : Nat → Ite) (unique : UniqueNames i) :
    UniqueNames (itbCow i memory) := by
  rw [uniqueNames_iff (itbCow_shape shape memory)]
  intro slot nr other holds holdsOther
  rw [itbCow_ite shape memory holds, itbCow_ite shape memory holdsOther]
  exact (uniqueNames_iff shape).mp unique slot nr other holds holdsOther

/-- The name field of a new entry matches the name it was made for. -/
theorem nameMatch_of_sameName {e : Ite} (short : hi.name.length < HVFS_MAX_NAME_LEN) (ite : Ite)
    (fresh : ite.name = []) (same : SameName e (iteCreate hi ite)) :
    nameMatch e.name hi.name = true := by
  have stored : (iteCreate hi ite).name = hi.name ++ [0] := by
    rw [iteCreate_name, fresh, copyName, if_pos short, List.drop_nil]
  unfold SameName at same
  rw [stored] at same
  unfold nameMatch
  rw [Bool.and_eq_true, List.all_eq_true, beq_iff_eq]
  refine ⟨fun k inside => ?_, ?_⟩
  · rw [beq_iff_eq, same k, List.getD_append _ _ _ _ (List.mem_range.mp inside)]
  · rw [same, List.getD_append_right _ _ _ _ (Nat.le_refl _), Nat.sub_self]
    rfl

/-- Adding an entry for a name that is not active keeps the names unique. -/
theorem itbAddIte_uniqueNames (shape : Shape i chain) (hmi : Hmi)
    (short : hi.name.length < HVFS_MAX_NAME_LEN) (unique : UniqueNames i)
    (inactive : ¬ActiveName i hi) : UniqueNames (itbAddIte hmi i hi).itb := by
  by_cases notFull : i.entries < (i.total : Int)
  · obtain ⟨nr, after, chainAfter, result, clear, added, ite⟩ :=
      itbAddIte_added shape notFull hmi hi
    rw [result, uniqueNames_iff added.shape, ite]
    -- an old active entry of the slot with the new name would have made the name active
    have apart : ∀ other, Holds i chain (hashSlot i hi.hash) other →
        (i.ite other).state = ITE_ACTIVE →
        ¬SameName (i.ite other) (iteCreate hi (newIte hmi hi).1) := by
      rintro other ⟨cell, member, rfl⟩ active same
      exact inactive ⟨cell, shape.chains.onChain_iff.mpr member, active,
        nameMatch_of_sameName short _ rfl same⟩
    have old : ∀ slot other, Holds i chain slot other → other ≠ nr := by
      rintro slot other holds rfl
      exact shape.not_holds_of_clear clear holds
    intro slot first second holds holdsSecond active activeSecond same
    rcases (added.holds slot first).mp holds with here | ⟨rfl, rfl⟩ <;>
      rcases (added.holds _ second).mp holdsSecond with there | ⟨sameSlot, rfl⟩
    · rw [Function.update_of_ne (old _ _ here)] at active same
      rw [Function.update_of_ne (old _ _ there)] at activeSecond same
      exact (uniqueNames_iff shape).mp unique slot first second here there active activeSecond same
    · rw [Function.update_of_ne (old _ _ here)] at active same
      rw [Function.update_self] at same
      exact absurd same (apart first (sameSlot ▸ here) active)
    · rw [Function.update_of_ne (old _ _ there)] at activeSecond same
      rw [Function.update_self] at same
      exact absurd (fun k => (same k).symm) (apart second there activeSecond)
    · rfl
  · rw [itbAddIte_full (not_lt.mp notFull)]
    exact unique

end Names

/-! ### A search that creates -/

section Creating

variable {i : Itb} {chain : Nat → List Nat} {hi : HvfsIndex}

/-- A search with INDEX_CREATE and without INDEX_CREATE_FORCE adds an entry, or answers what it
found and leaves the block alone. -/
theorem itbSearchCow_creating (shape : Shape i chain) (hmi : Hmi)
    (create : Flag.has hi.flag INDEX_CREATE = true)
    (noForce : Flag.has hi.flag INDEX_CREATE_FORCE = false) (memory : Option (Nat → Ite)) :
    itbSearchCow hmi i hi memory =
      match (chain (hashSlot i hi.hash)).find? (i.matchAt hi) with
      | none => some (itbAddIte hmi (memory.elim i (itbCow i)) hi)
      | some cell =>
        some (if Flag.has hi.flag INDEX_LOOKUP then
            ⟨0, some (mduReply (i.ite (i.index cell).entry)), hmi, i⟩
          else ⟨-EEXIST, none, hmi, i⟩) := by
  have walk := itbFind_eq shape hi (hashSlot_lt i hi.hash)
  have creates : planMissing hi = .dirty .create := by
    unfold planMissing
    rw [create, Bool.true_or, if_pos rfl]
  unfold itbSearchCow itbPlan
  rw [walk]
  rcases found : (chain (hashSlot i hi.hash)).find? (i.matchAt hi) with _ | cell
  · simp only [creates]
    cases memory with
    | none => rfl
    | some memory =>
      have again : (chain (hashSlot i hi.hash)).find? ((itbCow i memory).matchAt hi) = none :=
        (itbCow_find shape memory hi).trans found
      exact itbSearch_create (itbCow_shape shape memory) hmi again create
  · simp only [planFound, create, noForce, Bool.not_false, if_true]
    split_ifs <;> rfl

/-- A duplicate check that applies finds an entry. -/
theorem DuplicateCheck.found (check : DuplicateCheck i hi) (shape : Shape i chain)
    (active : ActiveName i hi) :
    ∃ cell, (chain (hashSlot i hi.hash)).find? (i.matchAt hi) = some cell := by
  have hit : ∃ cell, OnChain i cell (hashSlot i hi.hash) ∧
      iteMatch (i.ite (i.index cell).entry) hi = true := by
    rcases check.finds with ⟨byName, notUuid, notShadow⟩ | other
    · obtain ⟨cell, onChain, state, matched⟩ := active
      refine ⟨cell, onChain, ?_⟩
      have visible : (ITE_ACTIVE == ITE_UNLINKED) = false := by decide
      simp only [iteMatch, byName, notUuid, notShadow, state, matched, bne_self_eq_false,
        Bool.and_false, Bool.false_and, Bool.false_eq_true, if_false, if_true, visible]
    · exact other
  obtain ⟨cell, onChain, matched⟩ := hit
  rcases found : (chain (hashSlot i hi.hash)).find? (i.matchAt hi) with _ | first
  · exact absurd matched (List.find?_eq_none.mp found cell (shape.chains.onChain_iff.mp onChain))
  · exact ⟨first, rfl⟩

/-- The names that are active in a copy. -/
theorem ActiveName.of_itbCow (shape : Shape i chain) (memory : Nat → Ite)
    (active : ActiveName (itbCow i memory) hi) : ActiveName i hi := by
  obtain ⟨cell, onChain, state, matched⟩ := active
  have member := (itbCow_shape shape memory).chains.onChain_iff.mp onChain
  have same : (itbCow i memory).ite ((itbCow i memory).index cell).entry =
      i.ite (i.index cell).entry := itbCow_ite shape memory ⟨cell, member, rfl⟩
  rw [same] at state matched
  exact ⟨cell, onChain, state, matched⟩

end Creating

/-! ### The two handlers -/

inductive CreateOp
  | create
  | symlink
  deriving DecidableEq, Repr

/-- The index that the handler of the operation searches with. -/
def CreateOp.index (hvfsHash : U64 → List U8 → U64) : CreateOp → ClientRequest → Option HvfsIndex
  | .create => createIndex hvfsHash
  | .symlink => symlinkIndex hvfsHash

/-- A CREATE or SYMLINK request that keeps to its entry and its payload. -/
structure CreateCall where
  op : CreateOp
  request : ClientRequest
  chance : Chance
  noForce : Flag.has request.hi.flag INDEX_CREATE_FORCE = false
  fits : ∀ hvfsHash, ∀ hi ∈ op.index hvfsHash request, hi.Fits

def CreateCall.plan (env : Environment) (call : CreateCall) : HandlerPlan :=
  handlerPlan (call.op.index env.hvfsHash call.request) call.request call.chance.hmr

/-- `mds_create` or `mds_symlink`. -/
def createStep (env : Environment) (m : Mds) (call : CreateCall) : Option Mds :=
  (serve env m (call.plan env) call.chance).map Prod.snd

/-- The request comes to the block `i` and searches it with `hi`. -/
structure Reaches (env : Environment) (m : Mds) (call : CreateCall) (hi : HvfsIndex) (i : Itb) :
    Prop where
  plan : call.plan env = .search hi
  reached : reachItb env call.chance m hi = .ok i

/-- A request for a name that is active in its block is refused with -EEXIST and changes neither
that block nor another one. -/
def RefusesActive (env : Environment) (m : Mds) (call : CreateCall) : Prop :=
  ∀ hi i, Reaches env m call hi i → ActiveName i hi →
    serve env m (call.plan env) call.chance = some (.replied (-EEXIST),
      ⟨m.hmi, Function.update m.cbht (hi.puuid, hi.itbid) (some i)⟩)

/-- A request for a name that is active in its block is searched in a way that finds it. -/
def ChecksActive (env : Environment) (m : Mds) (call : CreateCall) : Prop :=
  ∀ hi i, Reaches env m call hi i → ActiveName i hi → DuplicateCheck i hi

/-- No attached block holds a name twice. -/
def Mds.NamesUnique (m : Mds) : Prop := ∀ key i, m.cbht key = some i → UniqueNames i

/-- Every attached block has its chains. -/
def Mds.Shaped (m : Mds) : Prop := ∀ key i, m.cbht key = some i → ∃ chain, Shape i chain

/-- The blocks on the storage server have their chains and unique names. -/
structure WellStored (env : Environment) : Prop where
  shaped : ∀ key i, env.stored key = some i → ∃ chain, Shape i chain
  unique : ∀ key i, env.stored key = some i → UniqueNames i

section Serving

variable {env : Environment} {m : Mds} {call : CreateCall} {hi : HvfsIndex} {i : Itb}

/-- Both handlers search with INDEX_CREATE and pass the rest of the client's flags on. -/
theorem CreateCall.creating (plan : call.plan env = .search hi) :
    Flag.has hi.flag INDEX_CREATE = true ∧ Flag.has hi.flag INDEX_CREATE_FORCE = false ∧
      hi.Fits := by
  have index : call.op.index env.hvfsHash call.request = some hi := by
    unfold CreateCall.plan handlerPlan at plan
    split_ifs at plan
    rcases index : call.op.index env.hvfsHash call.request with _ | searched
    · rw [index] at plan
      cases plan
    · rw [index] at plan
      cases plan
      rfl
  have fits : hi.Fits := call.fits env.hvfsHash hi index
  have flags : ∀ extra, Flag.has extra INDEX_CREATE = true →
      Flag.has extra INDEX_CREATE_FORCE = false →
      Flag.has (call.request.hi.flag ||| extra) INDEX_CREATE = true ∧
        Flag.has (call.request.hi.flag ||| extra) INDEX_CREATE_FORCE = false := by
    intro extra create noForce
    rw [Flag.has_or, Flag.has_or, create, noForce, call.noForce]
    exact ⟨Bool.or_true _, rfl⟩
  rcases op : call.op with _ | _ <;> rw [op] at index
  · have named := flags (INDEX_CREATE ||| INDEX_BY_NAME) (by decide) (by decide)
    unfold CreateOp.index createIndex at index
    simp only at index
    split_ifs at index <;> cases index <;> exact ⟨named.1, named.2, fits⟩
  · have linked := flags (INDEX_CREATE ||| INDEX_SYMLINK) (by decide) (by decide)
    unfold CreateOp.index symlinkIndex at index
    simp only at index
    split_ifs at index
    cases index
    exact ⟨linked.1, linked.2, fits⟩

/-- A request comes to a block that was attached before, that was stored, or that is new. -/
theorem reachItb_cases {chance : Chance} (reached : reachItb env chance m hi = .ok i) :
    m.cbht (hi.puuid, hi.itbid) = some i ∨ env.stored (hi.puuid, hi.itbid) = some i ∨
      i = emptyItb env.itbDepth := by
  unfold reachItb at reached
  rcases attached : m.cbht (hi.puuid, hi.itbid) with _ | found
  · rw [attached] at reached
    rcases loaded : if chance.readable then env.stored (hi.puuid, hi.itbid) else none with _ | block
    · rw [loaded] at reached
      simp only at reached
      split_ifs at reached
      cases reached
      exact Or.inr (Or.inr rfl)
    · rw [loaded] at reached
      simp only at reached
      split_ifs at loaded reached
      cases reached
      exact Or.inr (Or.inl loaded)
  · rw [attached] at reached
    cases reached
    exact Or.inl rfl

theorem emptyItb_uniqueNames (depth : Nat) : UniqueNames (emptyItb depth) := by
  rw [uniqueNames_iff (emptyItb_shape depth)]
  rintro slot nr other ⟨cell, member, _⟩
  cases member

theorem Reaches.shape (reaches : Reaches env m call hi i) (wellStored : WellStored env)
    (shaped : m.Shaped) : ∃ chain, Shape i chain := by
  rcases reachItb_cases reaches.reached with attached | stored | rfl
  · exact shaped _ i attached
  · exact wellStored.shaped _ i stored
  · exact ⟨_, emptyItb_shape _⟩

theorem Reaches.unique (reaches : Reaches env m call hi i) (wellStored : WellStored env)
    (unique : m.NamesUnique) : UniqueNames i := by
  rcases reachItb_cases reaches.reached with attached | stored | rfl
  · exact unique _ i attached
  · exact wellStored.unique _ i stored
  · exact emptyItb_uniqueNames _

/-- What `cbht_itb_hit` makes of a request that creates: it answers what the search found, or adds
an entry. -/
theorem cbhtItbHit_creating {chain : Nat → List Nat} (shape : Shape i chain) (chance : Chance)
    (hmi : Hmi) (create : Flag.has hi.flag INDEX_CREATE = true)
    (noForce : Flag.has hi.flag INDEX_CREATE_FORCE = false) :
    ∃ err hmiAfter after, cbhtItbHit chance hmi i hi = some (err, hmiAfter, after) ∧
      (∃ chainAfter, Shape after chainAfter) ∧
      (err = -EEXIST → after = i ∧ hmiAfter = hmi) ∧
      (err = -EEXIST ↔ Flag.has hi.flag INDEX_LOOKUP = false ∧
        Flag.has hi.flag INDEX_BY_ITB = false ∧
        ∃ cell, (chain (hashSlot i hi.hash)).find? (i.matchAt hi) = some cell) ∧
      (after = i ∨ (chain (hashSlot i hi.hash)).find? (i.matchAt hi) = none ∧
        after = (itbAddIte hmi (chance.memory.elim i (itbCow i)) hi).itb) := by
  have codes : (0 : Int) ≠ -EEXIST ∧ (-ENOMEM : Int) ≠ -EEXIST ∧ (-ESPLIT : Int) ≠ -EEXIST := by
    decide
  have failedAlloc : ∀ err : Int, err ≠ -EEXIST →
      (if err = 0 ∧ chance.replyData = false then -ENOMEM else err) ≠ -EEXIST := by
    intro err other
    split_ifs
    · exact codes.2.1
    · exact other
  unfold cbhtItbHit
  by_cases readdir : Flag.has hi.flag INDEX_BY_ITB = true
  · rw [if_pos readdir]
    refine ⟨0, hmi, i, rfl, ⟨chain, shape⟩, fun absurdity => absurd absurdity codes.1, ?_,
      Or.inl rfl⟩
    exact ⟨fun absurdity => absurd absurdity codes.1,
      fun ⟨_, clear, _⟩ => absurd readdir (by rw [clear]; decide)⟩
  · have clear : Flag.has hi.flag INDEX_BY_ITB = false := by simpa using readdir
    rw [if_neg readdir, itbSearchCow_creating shape hmi create noForce]
    rcases found : (chain (hashSlot i hi.hash)).find? (i.matchAt hi) with _ | cell
    · -- nothing found: an entry is added to the block or to its copy
      have shapeCopy : Shape (chance.memory.elim i (itbCow i)) chain := by
        cases chance.memory with
        | none => exact shape
        | some memory => exact itbCow_shape shape memory
      obtain ⟨answer, shapeAfter⟩ := itbAddIte_shape shapeCopy hmi hi
      have notExist : (itbAddIte hmi (chance.memory.elim i (itbCow i)) hi).err ≠ -EEXIST := by
        rcases answer with zero | split
        · rw [zero]
          exact codes.1
        · rw [split]
          exact codes.2.2
      refine ⟨_, _, _, rfl, shapeAfter, fun refused => absurd refused (failedAlloc _ notExist),
        ⟨fun refused => absurd refused (failedAlloc _ notExist), ?_⟩, Or.inr ⟨rfl, rfl⟩⟩
      rintro ⟨_, _, cell, some⟩
      cases some
    · by_cases lookup : Flag.has hi.flag INDEX_LOOKUP = true
      · simp only [lookup, if_true]
        refine ⟨_, _, _, rfl, ⟨chain, shape⟩, fun _ => ⟨rfl, rfl⟩, ?_, Or.inl rfl⟩
        exact ⟨fun refused => absurd refused (failedAlloc 0 codes.1),
          fun ⟨absurdity, _⟩ => nomatch absurdity⟩
      · simp only [lookup]
        refine ⟨-EEXIST, _, _, rfl, ⟨chain, shape⟩, fun _ => ⟨rfl, rfl⟩, ?_, Or.inl rfl⟩
        exact ⟨fun _ => ⟨trivial, clear, cell, rfl⟩, fun _ => rfl⟩

/-- What a request does that comes to a block. -/
theorem Reaches.serve (reaches : Reaches env m call hi i) :
    serve env m (call.plan env) call.chance =
      (cbhtItbHit call.chance m.hmi i hi).map fun (err, hmi, after) =>
        (.replied err, ⟨hmi, Function.update m.cbht (hi.puuid, hi.itbid) (some after)⟩) := by
  rw [reaches.plan]
  simp only [Hvfs.serve, mdsCbhtSearch, reaches.reached, Option.map_map]
  rfl

/-- A request leaves the server alone, or comes to a block. -/
theorem createStep_cases (env : Environment) (m : Mds) (call : CreateCall) :
    createStep env m call = some m ∨ ∃ hi i, Reaches env m call hi i := by
  unfold createStep serve
  rcases plan : call.plan env with err | _ | hi
  · exact Or.inl rfl
  · exact Or.inl rfl
  · rcases reached : reachItb env call.chance m hi with err | i
    · simp only [mdsCbhtSearch, reached]
      exact Or.inl rfl
    · exact Or.inr ⟨hi, i, plan, reached⟩

/-- A request is refused if and only if its search finds the active name. -/
theorem refusesActive_iff (wellStored : WellStored env) (shaped : m.Shaped) :
    RefusesActive env m call ↔ ChecksActive env m call := by
  refine forall_congr' fun hi => forall_congr' fun i => forall_congr' fun reaches =>
    forall_congr' fun active => ?_
  obtain ⟨chain, shape⟩ := reaches.shape wellStored shaped
  obtain ⟨create, noForce, _⟩ := call.creating reaches.plan
  obtain ⟨err, hmiAfter, after, hit, _, refused, exactly, _⟩ :=
    cbhtItbHit_creating shape call.chance m.hmi create noForce
  rw [reaches.serve, hit, Option.map_some, Option.some.injEq]
  constructor
  · intro same
    have code : err = -EEXIST := HandlerEnd.replied.inj (congrArg Prod.fst same)
    obtain ⟨lookup, readdir, cell, found⟩ := exactly.mp code
    have matched : i.matchAt hi cell = true := List.find?_some found
    exact ⟨lookup, readdir, Or.inr ⟨cell,
      shape.chains.onChain_iff.mpr (List.mem_of_find?_eq_some found), matched⟩⟩
  · intro check
    have code := exactly.mpr ⟨check.lookup, check.readdir, check.found shape active⟩
    obtain ⟨rfl, rfl⟩ := refused code
    rw [code]

/-- Every request is answered, and leaves blocks with chains. -/
theorem createStep_shaped (wellStored : WellStored env) (shaped : m.Shaped) (call : CreateCall) :
    ∃ after, createStep env m call = some after ∧ after.Shaped := by
  rcases createStep_cases env m call with same | ⟨hi, i, reaches⟩
  · exact ⟨m, same, shaped⟩
  · obtain ⟨chain, shape⟩ := reaches.shape wellStored shaped
    obtain ⟨create, noForce, _⟩ := call.creating reaches.plan
    obtain ⟨err, hmiAfter, after, hit, shapeAfter, _⟩ :=
      cbhtItbHit_creating shape call.chance m.hmi create noForce
    refine ⟨_, by rw [createStep, reaches.serve, hit]; rfl, fun key block attached => ?_⟩
    simp only [Function.update_apply] at attached
    split_ifs at attached
    · cases attached
      exact shapeAfter
    · exact shaped key block attached

/-- A request that checks for duplicates keeps the names unique. -/
theorem createStep_unique (wellStored : WellStored env) (shaped : m.Shaped)
    (unique : m.NamesUnique) (checks : ChecksActive env m call) {final : Mds}
    (stepped : createStep env m call = some final) : final.NamesUnique := by
  rcases createStep_cases env m call with same | ⟨hi, i, reaches⟩
  · cases same.symm.trans stepped
    exact unique
  · obtain ⟨chain, shape⟩ := reaches.shape wellStored shaped
    have uniqueHere := reaches.unique wellStored unique
    obtain ⟨create, noForce, fits⟩ := call.creating reaches.plan
    obtain ⟨err, hmiAfter, after, hit, _, _, _, left⟩ :=
      cbhtItbHit_creating shape call.chance m.hmi create noForce
    have uniqueAfter : UniqueNames after := by
      rcases left with rfl | ⟨missing, rfl⟩
      · exact uniqueHere
      · have inactive : ¬ActiveName i hi := by
          intro active
          obtain ⟨cell, found⟩ := (checks hi i reaches active).found shape active
          rw [missing] at found
          cases found
        cases call.chance.memory with
        | none => exact itbAddIte_uniqueNames shape _ fits.name uniqueHere inactive
        | some memory =>
          exact itbAddIte_uniqueNames (itbCow_shape shape memory) _ fits.name
            (itbCow_uniqueNames shape memory uniqueHere)
            fun active => inactive (active.of_itbCow shape memory)
    rw [createStep, reaches.serve, hit] at stepped
    cases stepped
    intro key block attached
    simp only [Function.update_apply] at attached
    split_ifs at attached
    · cases attached
      exact uniqueAfter
    · exact unique key block attached

/-- For every sequence of CREATE and SYMLINK requests: all requests are answered; and no block
ever holds two active entries of one name in one hash slot, with every request for an active name
refused, if and only if every request for an active name is searched in a way that finds it. -/
theorem names_unique_iff (wellStored : WellStored env) (hmi : Hmi) (calls : List CreateCall) :
    (∃ final, run (createStep env) (Mds.init hmi) calls = some final) ∧
      (((∀ front rest, calls = front ++ rest → ∀ m,
            run (createStep env) (Mds.init hmi) front = some m → m.NamesUnique) ∧
          Guarded (createStep env) (RefusesActive env) (Mds.init hmi) calls) ↔
        Guarded (createStep env) (ChecksActive env) (Mds.init hmi) calls) := by
  have shapedInit : (Mds.init hmi).Shaped := fun _ _ attached => nomatch attached
  have uniqueInit : (Mds.init hmi).NamesUnique := fun _ _ attached => nomatch attached
  have kept : ∀ m call next, m.Shaped → createStep env m call = some next → next.Shaped := by
    intro m call next shaped stepped
    obtain ⟨after, same, shapedAfter⟩ := createStep_shaped wellStored shaped call
    cases same.symm.trans stepped
    exact shapedAfter
  have same : Guarded (createStep env) (RefusesActive env) (Mds.init hmi) calls ↔
      Guarded (createStep env) (ChecksActive env) (Mds.init hmi) calls :=
    guarded_iff_of_invariant Mds.Shaped
      (fun m call shaped => refusesActive_iff wellStored shaped)
      (fun m call next shaped _ stepped => kept m call next shaped stepped) shapedInit
  refine ⟨?_, fun ⟨_, refuses⟩ => same.mp refuses, fun checks => ⟨?_, same.mpr checks⟩⟩
  · have all : Guarded (createStep env) (fun _ _ => True) (Mds.init hmi) calls :=
      guarded_of_forall fun _ _ => trivial
    obtain ⟨final, reached, _⟩ := guarded_progress Mds.Shaped
      (fun m call shaped _ => createStep_shaped wellStored shaped call) shapedInit all
    exact ⟨final, reached⟩
  · rintro front rest rfl m reached
    have checksFront := (guarded_append checks reached).1
    have preserved : ∀ m call next, (m.Shaped ∧ m.NamesUnique) → ChecksActive env m call →
        createStep env m call = some next → (next.Shaped ∧ next.NamesUnique) :=
      fun m call next good checks stepped => ⟨kept m call next good.1 stepped,
        createStep_unique wellStored good.1 good.2 checks stepped⟩
    exact (guarded_invariant _ preserved ⟨shapedInit, uniqueInit⟩ checksFront reached).2

end Serving

/-! ### Two runs -/

/-- A server with small blocks and an empty storage server. -/
def smallEnvironment : Environment where
  hvfsHash := fun _ _ => 0
  itbDepth := 3
  stored := fun _ => none

/-- A request that names one letter and carries a payload. -/
def letterRequest (flag : U32) : ClientRequest where
  len := 60
  datacheck := true
  hi := ⟨flag, 0, 0, 0, 0, ⟨4096, none, {}, ⟨0, 0, 0⟩, 0⟩, [97]⟩
  dlen := 4

def letterSymlink : CreateCall where
  op := .symlink
  request := letterRequest 0
  chance := {}
  noForce := by decide
  fits := by
    rintro hvfsHash hi ⟨⟩
    have fits : ({ (letterRequest 0).hi with
      flag := 0 ||| (INDEX_CREATE ||| INDEX_SYMLINK) } : HvfsIndex).Fits := by decide
    exact ⟨fits.name, fits.columns, fits.copied, fits.updated⟩

theorem smallEnvironment_wellStored : WellStored smallEnvironment where
  shaped := fun _ _ stored => nomatch stored
  unique := fun _ _ stored => nomatch stored

/-- The rule at one SYMLINK request. -/
theorem names_unique_iff_symlink :
    (∃ final, run (createStep smallEnvironment) (Mds.init ⟨0, 0⟩) [letterSymlink] = some final) ∧
      (((∀ front rest, [letterSymlink] = front ++ rest → ∀ m,
            run (createStep smallEnvironment) (Mds.init ⟨0, 0⟩) front = some m → m.NamesUnique) ∧
          Guarded (createStep smallEnvironment) (RefusesActive smallEnvironment)
            (Mds.init ⟨0, 0⟩) [letterSymlink]) ↔
        Guarded (createStep smallEnvironment) (ChecksActive smallEnvironment)
          (Mds.init ⟨0, 0⟩) [letterSymlink]) :=
  names_unique_iff smallEnvironment_wellStored ⟨0, 0⟩ [letterSymlink]

/-- Two SYMLINK requests for one name, without any flag of the client: both are answered with 0,
and the block holds the name twice. -/
theorem symlink_twice_not_unique :
    ∃ first second, serve smallEnvironment (Mds.init ⟨0, 0⟩) (letterSymlink.plan smallEnvironment)
        letterSymlink.chance = some (.replied 0, first) ∧
      serve smallEnvironment first (letterSymlink.plan smallEnvironment) letterSymlink.chance =
        some (.replied 0, second) ∧
      run (createStep smallEnvironment) (Mds.init ⟨0, 0⟩) [letterSymlink, letterSymlink] =
        some second ∧ ¬second.NamesUnique := by
  refine ⟨_, _, rfl, rfl, rfl, fun unique => ?_⟩
  have here := unique (0, 0) _ rfl 0 0 8 ?_ ?_ ?_ ?_ fun _ => rfl
  · exact absurd here (by decide)
  · exact ⟨by decide, by decide, [0, 8], .link rfl (.last rfl), by decide⟩
  · exact ⟨by decide, by decide, [0, 8], .link rfl (.last rfl), by decide⟩
  · rfl
  · rfl

end Hvfs
