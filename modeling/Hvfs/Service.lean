/-
This file verifies the metadata service as its clients see it. A client sends
CREATE, LOOKUP, UPDATE and UNLINK requests by name and takes the replies apart
with `hmr_extract`; behind the replies are the handlers, the CBHT with its
splits, the search in the block, copy-on-write, and the bytes of the reply.

What the service is for is a family of maps of names, one for each slice of a
directory, that is for each key `(puuid, itbid)`. A slice comes to be with the
first CREATE that reaches it. Requests run one after the other, and the storage
server has no block yet.
-/

import Hvfs.CbhtCache
import Hvfs.ItbMap

namespace Hvfs

open Transition

/-! ### Requests -/

/-- The index that the handler of an operation searches with. -/
def NameOp.index (op : NameOp) (nameHash : U64 → List U8 → U64) (request : ClientRequest) :
    Option HvfsIndex :=
  match op with
  | .create => createIndex nameHash request
  | .lookup => lookupIndex nameHash request
  | .update => updateIndex nameHash request
  | .unlink => unlinkIndex nameHash request

/-- A request by name, as a client may send it. The client may leave the hash and the flag of the
operation to the handler. -/
structure SentByName (nameHash : U64 → List U8 → U64) (op : NameOp) (request : ClientRequest) :
    Prop where
  byName : Flag.has request.hi.flag INDEX_BY_NAME = true
  searches : Flag.has request.hi.flag INDEX_BY_ITB = false
  plain : ∀ bit ∈ variantBits, Flag.has request.hi.flag bit = false
  only : ∀ bit ∈ operationBits, bit ≠ op.bit → Flag.has request.hi.flag bit = false
  proper : ProperName request.hi.name
  hashed : request.hi.hash = 0 ∨ request.hi.hash = nameHash request.hi.puuid request.hi.name
  columns : ∀ mu, request.hi.data.mu = some mu → ∀ column ∈ mu.columns, column.1 < 6
  payload : op = .update → request.dlen ≠ 0 → request.hi.data.mu.isSome = true

/-- What happens to the service: a client's request, with the error of `mds_read_itb` if it comes to
that, or a pass of `async_unlink_ite` over a block. A request that does not pass the checks may hold
anything. -/
inductive ServiceEvent (nameHash : U64 → List U8 → U64)
  | request (op : NameOp) (request : ClientRequest) (chance : Chance)
    (readErr : { err : Int // IsErrno err })
    (sent : sizeofHvfsIndex ≤ request.len → request.datacheck = true →
      SentByName nameHash op request)
  | reclaim (i limit : Nat) (count : UnlinkCount)

/-! ### The server and the client -/

/-- What `hmr_extract` finds in a reply. -/
structure Extracted where
  index : Option IndexHeader
  mdu : Option MduReply
  deriving DecidableEq, Repr

/-- What a client has in the end. `silent` is an event without a reply: the transaction was
dropped, or there was no request. -/
inductive ServiceAnswer
  | silent
  | error (err : Int)
  | reply (extracted : Extracted)
  deriving DecidableEq, Repr

/-- The client's side of a reply. -/
def MdReply.extract (reply : MdReply) : Extracted where
  index := (hmrExtract reply EXTRACT_HI).bind fun (_, offset) =>
    (reply.region offset sizeofHvfsIndex).map IndexHeader.read
  mdu := (hmrExtract reply EXTRACT_MDU).bind fun (_, offset) =>
    (reply.region offset HVFS_MDU_SIZE).map MduReply.read

/-- The client's side of an answer. -/
def decoded : Visible → ServiceAnswer
  | .ok reply => .reply reply.extract
  | .error err => .error err

/-- What does not change. -/
structure ServiceWorld extends CacheWorld where
  /-- `hvfs_hash` of a directory's uuid and a name. -/
  nameHash : U64 → List U8 → U64

/-- The server after `mds_init`. -/
def CacheServer.init (world : ServiceWorld) (bdepth : Nat) (hmi : Hmi) : CacheServer where
  hmi := hmi
  cbht := mdsCbhtInit bdepth (freeItbs fun _ => (0, 0))
  blocks := 0
  itb := fun _ => emptyItb world.itbDepth

/-- One event. A block that is not attached is not on the list of the asynchronous unlink. -/
def serviceStep (world : ServiceWorld) (s : CacheServer) :
    ServiceEvent world.nameHash → Option (ServiceAnswer × CacheServer)
  | .request op request chance readErr _ =>
    match handlerPlan (op.index world.nameHash request) request chance.hmr with
    | .reply err => some (.error err, s)
    | .free => some (.silent, s)
    | .search hi =>
      (cbhtSearch world.toCacheWorld s hi ⟨.failed readErr.1 readErr.2, chance.attachErr⟩
        chance).map fun (answer, after) => (decoded answer, after)
  | .reclaim i limit count =>
    if (s.cbht.itb i).be = none then some (.silent, s)
    else (asyncUnlinkIte limit (s.itb i) count).map fun (after, _) =>
      (.silent, { s with itb := Function.update s.itb i after })

/-! ### What the service is for -/

/-- The slices that exist, and the names in them. -/
abbrev Slices := U64 × U64 → Option NameStore

/-- An operation on a slice. Only a CREATE makes a slice. -/
def Slices.run (capacity : Nat) (slices : Slices) (key : U64 × U64) (op : NameOp)
    (name : List U8) (mu : Option MduUpdate) : NameAnswer × Slices :=
  match slices key with
  | some store =>
    let (answer, next) := store.run capacity op name mu
    (answer, Function.update slices key (some next))
  | none =>
    if op = .create then
      let (answer, next) := NameStore.run capacity ⟨∅, 0⟩ op name mu
      (answer, Function.update slices key (some next))
    else (⟨-ENOENT, none⟩, slices)

/-- The index that comes back with a reply: the client's own, as the handler completed it. -/
def echoed (world : ServiceWorld) (op : NameOp) (request : ClientRequest) : Option IndexHeader :=
  (op.index world.nameHash request).map fun hi => hi.header world.context.psalt

/-- What a client has of the metadata: nothing when it is flagged as a hard link target. -/
def shown (data : MduReply) : Option MduReply :=
  if Flag.has data.mdu.flags HVFS_MDU_IF_LINKT then none else some data

/-- What a client has of an answer. Without memory for the reply a success is told as an error. -/
def NameAnswer.told (answer : NameAnswer) (replyData : Bool) (index : Option IndexHeader) :
    ServiceAnswer :=
  match answer.data with
  | none => .error answer.err
  | some data => if replyData then .reply ⟨index, shown data⟩ else .error (-ENOMEM)

/-- The update that a request carries. -/
def carried (op : NameOp) (request : ClientRequest) : Option MduUpdate :=
  if op = .create ∧ request.dlen = 0 then none else request.hi.data.mu

/-- A request that passed the checks, to the slices. It does nothing when there is no memory for the
block of a new slice. -/
def Slices.search (capacity : Nat) (slices : Slices) (key : U64 × U64) (op : NameOp)
    (name : List U8) (mu : Option MduUpdate) (chance : Chance) (index : Option IndexHeader) :
    ServiceAnswer × Slices :=
  if slices key = none ∧ op = .create ∧ chance.attachErr ≠ 0 then
    (.error chance.attachErr, slices)
  else
    let (answer, next) := slices.run capacity key op name mu
    (answer.told chance.replyData index, next)

/-- A request to the slices. It does nothing when it is too short or damaged, when there is no
memory for a reply, or when it is an update without payload. -/
def Slices.serve (world : ServiceWorld) (slices : Slices) (op : NameOp) (request : ClientRequest)
    (chance : Chance) : ServiceAnswer × Slices :=
  if chance.hmr = false then (.silent, slices)
  else if request.len < sizeofHvfsIndex then (.error (-EINVAL), slices)
  else if request.datacheck = false then (.error (-EFAULT), slices)
  else if op = .update ∧ request.dlen = 0 then (.silent, slices)
  else slices.search (2 ^ world.itbDepth) (request.hi.puuid, request.hi.itbid) op request.hi.name
    (carried op request) chance (echoed world op request)

/-- An event on the slices. A pass may reclaim any number of entries of one slice. -/
inductive Slices.Step (world : ServiceWorld) :
    Slices → ServiceEvent world.nameHash → ServiceAnswer → Slices → Prop
  | request (slices : Slices) (op : NameOp) (request : ClientRequest) (chance : Chance)
    (readErr : { err : Int // IsErrno err })
    (sent : sizeofHvfsIndex ≤ request.len → request.datacheck = true →
      SentByName world.nameHash op request) :
    Step world slices (.request op request chance readErr sent)
      (slices.serve world op request chance).1 (slices.serve world op request chance).2
  | idle (slices : Slices) (i limit : Nat) (count : UnlinkCount) :
    Step world slices (.reclaim i limit count) .silent slices
  | reclaim (slices : Slices) (i limit : Nat) (count : UnlinkCount) (key : U64 × U64)
    (store : NameStore) (exists_ : slices key = some store) (left : Nat)
    (fewer : left ≤ store.unreclaimed) :
    Step world slices (.reclaim i limit count) .silent
      (Function.update slices key (some { store with unreclaimed := left }))

/-! ### What a handler searches with -/

/-- The flags that the handler of an operation adds. -/
def NameOp.added : NameOp → U32
  | .create => INDEX_CREATE ||| INDEX_BY_NAME
  | .lookup => INDEX_LOOKUP
  | .update => INDEX_MDU_UPDATE
  | .unlink => INDEX_UNLINK

/-- The added flags leave the variants of a request alone. -/
theorem NameOp.added_variant (op : NameOp) :
    ∀ bit ∈ INDEX_BY_ITB :: variantBits, Flag.has op.added bit = false := by
  simp only [variantBits, List.forall_mem_cons, List.not_mem_nil, IsEmpty.forall_iff, implies_true,
    and_true]
  cases op <;> decide

/-- Of the operations they name their own. -/
theorem NameOp.added_operation (op : NameOp) :
    ∀ bit ∈ operationBits, Flag.has op.added bit = decide (bit = op.bit) := by
  simp only [operationBits, List.forall_mem_cons, List.not_mem_nil, IsEmpty.forall_iff,
    implies_true, and_true]
  cases op <;> decide

section Handlers

variable {nameHash : U64 → List U8 → U64} {op : NameOp} {request : ClientRequest}
  {hi : HvfsIndex}

/-- A handler completes the index: the flags, the hash, and where the payload is. -/
theorem index_fields (index : op.index nameHash request = some hi) :
    hi.flag = request.hi.flag ||| op.added ∧ hi.hash = (fillHash nameHash request.hi).hash ∧
      hi.puuid = request.hi.puuid ∧ hi.itbid = request.hi.itbid ∧ hi.name = request.hi.name ∧
      hi.data.mu = carried op request := by
  cases op with
  | create =>
    by_cases empty : request.dlen = 0
    · simp only [NameOp.index, createIndex, empty, beq_self_eq_true, if_true] at index
      obtain rfl := Option.some.inj index
      exact ⟨rfl, rfl, rfl, rfl, rfl, (if_pos ⟨rfl, empty⟩).symm⟩
    · simp only [NameOp.index, createIndex, beq_iff_eq, if_neg empty] at index
      obtain rfl := Option.some.inj index
      exact ⟨rfl, rfl, rfl, rfl, rfl, (if_neg fun both => empty both.2).symm⟩
  | lookup =>
    obtain rfl := Option.some.inj index
    exact ⟨rfl, rfl, rfl, rfl, rfl, rfl⟩
  | update =>
    simp only [NameOp.index, updateIndex] at index
    split at index
    · cases index
    · obtain rfl := Option.some.inj index
      exact ⟨rfl, rfl, rfl, rfl, rfl, rfl⟩
  | unlink =>
    obtain rfl := Option.some.inj index
    exact ⟨rfl, rfl, rfl, rfl, rfl, rfl⟩

/-- Only an update without payload has no index. -/
theorem index_eq_none_iff :
    op.index nameHash request = none ↔ op = .update ∧ request.dlen = 0 := by
  cases op with
  | create => simp [NameOp.index, createIndex, ite_eq_iff]
  | lookup => simp [NameOp.index, lookupIndex]
  | update => simp [NameOp.index, updateIndex]
  | unlink => simp [NameOp.index, unlinkIndex]

/-- The index of a request by name is that of one operation on a name. -/
theorem SentByName.nameRequest (sent : SentByName nameHash op request)
    (index : op.index nameHash request = some hi) :
    Flag.has hi.flag INDEX_BY_ITB = false ∧
      ∃ named : NameRequest (nameHash hi.puuid), named.op = op ∧ named.hi = hi := by
  obtain ⟨flag, hash, puuid, -, name, mu⟩ := index_fields index
  have flags : ∀ bit, Flag.has hi.flag bit = (Flag.has request.hi.flag bit ||
      Flag.has op.added bit) := by
    intro bit
    rw [flag, Flag.has_or]
  have payload : ∀ update, hi.data.mu = some update → request.hi.data.mu = some update := by
    intro update here
    rw [mu, carried] at here
    split at here
    · cases here
    · exact here
  refine ⟨?_, ⟨op, hi, ?_, fun bit member => ?_, fun bit member => ?_, ?_, ?_,
    fun update here => ?_, fun isUpdate => ?_⟩, rfl, rfl⟩
  · rw [flags, sent.searches, op.added_variant _ List.mem_cons_self]
    rfl
  · rw [flags, sent.byName, Bool.true_or]
  · rw [flags, sent.plain bit member, op.added_variant bit (List.mem_cons_of_mem _ member)]
    rfl
  · rw [flags, op.added_operation bit member]
    by_cases same : bit = op.bit
    · rw [decide_eq_true same, Bool.or_true]
    · rw [sent.only bit member same, Bool.false_or]
  · rw [name]
    exact sent.proper
  · rw [hash, puuid, name, fillHash]
    simp only [sent.byName, Bool.true_and, beq_iff_eq]
    rcases sent.hashed with zero | filled
    · rw [if_pos zero]
    · rw [filled, ite_id]
  · exact sent.columns update (payload update here)
  · rw [mu, isUpdate, carried, if_neg (by rintro ⟨⟨⟩, -⟩)]
    refine sent.payload isUpdate fun zero => ?_
    rw [index_eq_none_iff.mpr ⟨isUpdate, zero⟩] at index
    cases index

end Handlers

/-! ### A search in a block -/

section Blocks

variable {hash : List U8 → U64} {i : Itb} {chain : Nat → List Nat}
  {place : List U8 → Option Nat} {bound : Finmap fun _ : List U8 => Mdu} {capacity : Nat}
  {hmi : Hmi} {store : NameStore}

/-- A copy holds the names of the original. -/
theorem Tracked.copied (tracked : Tracked hash i chain place bound) (memory : Nat → Ite) :
    Tracked hash (itbCow i memory) chain place bound := by
  have same : ∀ slot nr, Holds i chain slot nr → (itbCow i memory).ite nr = i.ite nr :=
    fun slot nr => itbCow_ite tracked.shape memory
  refine ⟨itbCow_shape tracked.shape memory, fun slot nr holds => ?_, fun slot nr holds => ?_,
    fun slot nr holds => ?_, fun slot nr holds => ?_, fun name nr => ?_, fun name => ?_⟩
  · rw [same slot nr holds]
    exact tracked.named slot nr holds
  · rw [same slot nr holds]
    exact tracked.normal slot nr holds
  · rw [same slot nr holds]
    exact tracked.state slot nr holds
  · rw [same slot nr holds]
    exact tracked.links slot nr holds
  · rw [tracked.placed]
    constructor
    · rintro ⟨active, stored, slot, holds⟩
      rw [same slot nr holds]
      exact ⟨active, stored, slot, holds⟩
    · rintro ⟨active, stored, slot, holds⟩
      rw [same slot nr holds] at active stored
      exact ⟨active, stored, slot, holds⟩
  · rw [tracked.lookup]
    rcases placed : place name with _ | nr
    · rfl
    · obtain ⟨_, _, slot, holds⟩ := (tracked.placed name nr).mp placed
      rw [Option.map_some, Option.map_some, same slot nr holds]

theorem Refines.copied (related : Refines hash capacity (hmi, i) store) (hi : HvfsIndex)
    (memory : Option (Nat → Ite)) : Refines hash capacity (hmi, searchBlock i hi memory) store := by
  rcases searchBlock_cases i hi memory with same | ⟨copied, same⟩
  · rw [same]
    exact related
  · obtain ⟨full, load, chain, place, tracked⟩ := related
    rw [same]
    exact ⟨full, load, chain, place, tracked.copied copied⟩

/-- A search for a name, on the block or on its copy, is the operation on the map. -/
theorem Refines.searched (related : Refines hash capacity (hmi, i) store)
    (request : NameRequest hash) (memory : Option (Nat → Ite)) :
    ∃ result answer next, itbSearchCow hmi i request.hi memory = some result ∧
      store.run capacity request.op request.hi.name request.hi.data.mu = (answer, next) ∧
      answer = ⟨result.err, result.data⟩ ∧
      Refines hash capacity (result.hmi, result.itb) next := by
  obtain ⟨next, step, kept⟩ := nameStep_refines (hmi, searchBlock i request.hi memory)
    (NameCall.request request) (related.copied request.hi memory)
  rw [itbSearchCow_eq]
  rcases search : itbSearch hmi (searchBlock i request.hi memory) request.hi with _ | result
  · simp only [nameStep, search] at step
    cases step
  · simp only [nameStep, search] at step kept
    generalize given : (some ⟨result.err, result.data⟩ : Option NameAnswer) = answer at step
    cases step
    exact ⟨result, _, _, rfl, rfl, (Option.some.inj given).symm, kept⟩

/-- An operation on a map succeeds with the metadata of the name, or fails with nothing. -/
theorem NameStore.run_answer (capacity : Nat) (store : NameStore) (op : NameOp) (name : List U8)
    (mu : Option MduUpdate) :
    (∃ mdu, (store.run capacity op name mu).1 = ⟨0, some (nameReply name mdu)⟩) ∨
      ∃ err ≠ 0, (store.run capacity op name mu).1 = ⟨err, none⟩ := by
  have exist : (-EEXIST : Int) ≠ 0 := by decide
  have noent : (-ENOENT : Int) ≠ 0 := by decide
  have full : (-ESPLIT : Int) ≠ 0 := by decide
  unfold NameStore.run
  rcases store.bound.lookup name with _ | mdu
  · cases op with
    | create =>
      simp only
      split
      · exact Or.inr ⟨_, full, rfl⟩
      · exact Or.inl ⟨_, rfl⟩
    | lookup => exact Or.inr ⟨_, noent, rfl⟩
    | update => exact Or.inr ⟨_, noent, rfl⟩
    | unlink => exact Or.inr ⟨_, noent, rfl⟩
  · cases op with
    | create => exact Or.inr ⟨_, exist, rfl⟩
    | lookup => exact Or.inl ⟨_, rfl⟩
    | update => exact Or.inl ⟨_, rfl⟩
    | unlink => exact Or.inl ⟨_, rfl⟩

end Blocks

/-! ### A reply at the client -/

theorem nameReply_length (name : List U8) (mdu : Mdu) :
    (nameReply name mdu).bytes.length = HVFS_MDU_SIZE := by
  unfold nameReply MduReply.bytes
  rw [List.length_append, Mdu.bytes_length, List.length_map, List.length_range]
  rfl

/-- The client finds its index, and the metadata unless it is flagged as a hard link target. -/
theorem searchReply_extract (context : ReplyContext) (hi : HvfsIndex) {data : MduReply}
    (length : data.bytes.length = HVFS_MDU_SIZE) :
    (searchReply context hi data.bytes).extract =
      ⟨some (hi.header context.psalt), shown data⟩ := by
  obtain ⟨found, header⟩ := searchReply_index context hi length
  have flags : (Mdu.read data.bytes).flags = data.mdu.flags := by
    rw [MduReply.bytes, Mdu.read_bytes]
  unfold MdReply.extract shown
  simp only [found, Option.bind_some, header]
  cases target : Flag.has data.mdu.flags HVFS_MDU_IF_LINKT with
  | false =>
    rw [← flags] at target
    obtain ⟨foundMdu, region, -⟩ := searchReply_extractMdu context hi length target
    simp only [foundMdu, Option.bind_some, region, Option.map_some, MduReply.read_bytes]
    rfl
  | true =>
    rw [← flags] at target
    rw [searchReply_noMdu context hi target]
    rfl

section Hits

variable {s : CacheServer} {hash : List U8 → U64} {capacity : Nat} {store : NameStore}

/-- A request that comes to its block is the operation on the block's map, and the client is told
of it. -/
theorem hitBlock_served (world : CacheWorld) (chance : Chance) {i : Nat}
    (related : Refines hash capacity (s.hmi, s.itb i) store) (request : NameRequest hash)
    (searches : Flag.has request.hi.flag INDEX_BY_ITB = false) :
    ∃ reply hmi after answer next,
      hitBlock world s request.hi chance i =
        some (reply, { s with hmi := hmi, itb := Function.update s.itb i after }) ∧
      store.run capacity request.op request.hi.name request.hi.data.mu = (answer, next) ∧
      decoded reply =
        answer.told chance.replyData (some (request.hi.header world.context.psalt)) ∧
      Refines hash capacity (hmi, after) next := by
  obtain ⟨result, answer, next, search, ran, rfl, kept⟩ := related.searched request chance.memory
  have notItb : ¬Flag.has request.hi.flag INDEX_BY_ITB = true := by
    rw [searches]
    exact Bool.false_ne_true
  have outcome := store.run_answer capacity request.op request.hi.name request.hi.data.mu
  rw [ran] at outcome
  unfold hitBlock cbhtItbHitReply cbhtItbHit
  simp only [if_neg notItb, search, Option.map_some, Option.bind_some]
  refine ⟨_, _, _, _, _, rfl, ran, ?_, kept⟩
  rcases outcome with ⟨mdu, given⟩ | ⟨err, failed, given⟩
  · obtain ⟨err, data⟩ := NameAnswer.mk.inj given
    have length := nameReply_length request.hi.name mdu
    rw [if_pos err, data, Option.map_some, Option.getD_some, NameAnswer.told]
    simp only
    cases chance.replyData with
    | false => rfl
    | true =>
      rw [if_pos rfl, if_pos rfl]
      exact congrArg ServiceAnswer.reply (searchReply_extract world.context request.hi length)
  · obtain ⟨same, data⟩ := NameAnswer.mk.inj given
    rw [same, data, if_neg failed, NameAnswer.told, visible, if_neg failed]
    rfl

end Hits

/-! ### The table and the slices -/

/-- The attached blocks hold the slices, each under its key. -/
structure Sliced (world : ServiceWorld) (s : CacheServer) (slices : Slices) : Prop where
  good : s.Good world.toCacheWorld
  block : ∀ i, s.cbht.Attached i → ∃ store, slices (s.cbht.key i) = some store ∧
    Refines (world.nameHash (s.cbht.key i).1) (2 ^ world.itbDepth) (s.hmi, s.itb i) store
  slice : ∀ key, slices key ≠ none → ∃ i, s.cbht.Attached i ∧ s.cbht.key i = key

/-- The insertion of a new block for the request would make the directory too deep. -/
def TooDeep (world : CacheWorld) (s : CacheServer) (hi : HvfsIndex) : Prop :=
  mdsCbhtInsert world.hvfsHash (newBlock s hi (emptyItb world.itbDepth)).cbht s.blocks =
    .error .depth

section Represented

variable {world : ServiceWorld} {s : CacheServer} {slices : Slices}

theorem Sliced.key_inj (sliced : Sliced world s slices) {i j : Nat}
    (attached : s.cbht.Attached i) (attachedOther : s.cbht.Attached j)
    (same : s.cbht.key i = s.cbht.key j) : i = j := by
  obtain ⟨puuid, itbid⟩ := Prod.mk.inj same
  exact sliced.good.cbht.blocks.keys i j attached attachedOther puuid itbid

/-- A slice that does not exist has no block. -/
theorem Sliced.missing (sliced : Sliced world s slices) {hi : HvfsIndex}
    (none : slices (hi.puuid, hi.itbid) = none) : ¬s.Attaches hi := by
  rintro ⟨i, attached, key⟩
  obtain ⟨store, here, -⟩ := sliced.block i attached
  rw [key, none] at here
  cases here

/-- A change of one block is a change of its slice. -/
theorem Sliced.update (sliced : Sliced world s slices) {i : Nat}
    (attached : s.cbht.Attached i) {hmi : Hmi} {after : Itb} {next : NameStore}
    (related : Refines (world.nameHash (s.cbht.key i).1) (2 ^ world.itbDepth) (hmi, after) next) :
    Sliced world { s with hmi := hmi, itb := Function.update s.itb i after }
      (Function.update slices (s.cbht.key i) (some next)) := by
  refine ⟨⟨sliced.good.cbht, sliced.good.bound⟩, fun j attachedOther => ?_,
    fun key there => ?_⟩
  · change s.cbht.Attached j at attachedOther
    change ∃ store, Function.update slices (s.cbht.key i) (some next) (s.cbht.key j) = _ ∧
      Refines (world.nameHash (s.cbht.key j).1) _ (hmi, Function.update s.itb i after j) store
    rcases eq_or_ne j i with rfl | other
    · rw [Function.update_self, Function.update_self]
      exact ⟨next, rfl, related⟩
    · have apart : s.cbht.key j ≠ s.cbht.key i :=
        fun same => other (sliced.key_inj attachedOther attached same)
      obtain ⟨store, here, kept⟩ := sliced.block j attachedOther
      rw [Function.update_of_ne apart, Function.update_of_ne other]
      exact ⟨store, here, kept⟩
  · rcases eq_or_ne key (s.cbht.key i) with same | other
    · exact ⟨i, attached, same.symm⟩
    · rw [Function.update_of_ne other] at there
      exact sliced.slice key there

/-- The insertion of an empty block makes an empty slice. -/
theorem Sliced.inserted (sliced : Sliced world s slices) {hi : HvfsIndex}
    (absent : slices (hi.puuid, hi.itbid) = none) {reply : InsertReply} {next : Cbht}
    (ended : mdsCbhtInsert world.hvfsHash (newBlock s hi (emptyItb world.itbDepth)).cbht s.blocks =
      .ok (reply, next)) :
    Sliced world { newBlock s hi (emptyItb world.itbDepth) with cbht := next }
      (Function.update slices (hi.puuid, hi.itbid) (some ⟨∅, 0⟩)) := by
  obtain ⟨good, -, -, attached, keys, key⟩ :=
    sliced.good.inserted (sliced.missing absent) ended
  refine ⟨good, fun j here => ?_, fun other there => ?_⟩
  · change ∃ store, Function.update slices _ _ (next.key j) = _ ∧
      Refines (world.nameHash (next.key j).1) _
        (s.hmi, Function.update s.itb s.blocks (emptyItb world.itbDepth) j) store
    rcases (attached j).mp here with before | rfl
    · obtain ⟨store, bound, kept⟩ := sliced.block j before
      have older : j ≠ s.blocks := Nat.ne_of_lt (sliced.good.bound j before)
      have apart : s.cbht.key j ≠ (hi.puuid, hi.itbid) := by
        intro same
        rw [same, absent] at bound
        cases bound
      rw [keys j before, Function.update_of_ne apart, Function.update_of_ne older]
      exact ⟨store, bound, kept⟩
    · rw [key, Function.update_self, Function.update_self]
      exact ⟨_, rfl, emptyItb_refines _ _ s.hmi⟩
  · rcases eq_or_ne other (hi.puuid, hi.itbid) with same | different
    · exact ⟨s.blocks, (attached _).mpr (Or.inr rfl), key.trans same.symm⟩
    · rw [Function.update_of_ne different] at there
      obtain ⟨i, before, keyOf⟩ := sliced.slice other there
      exact ⟨i, (attached i).mpr (Or.inl before), (keys i before).trans keyOf⟩

end Represented

/-! ### Every run -/

section Runs

variable {world : ServiceWorld} {s : CacheServer} {slices : Slices} {hi : HvfsIndex}
  {chance : Chance}

/-- A search in an attached block is the operation on its slice. -/
theorem Sliced.hit (sliced : Sliced world s slices) (chance : Chance) {i : Nat}
    {store : NameStore} (attached : s.cbht.Attached i) (key : s.cbht.key i = (hi.puuid, hi.itbid))
    (bound : slices (hi.puuid, hi.itbid) = some store)
    (named : NameRequest (world.nameHash hi.puuid)) (same : named.hi = hi)
    (searches : Flag.has hi.flag INDEX_BY_ITB = false) :
    ∃ reply after answer next,
      hitBlock world.toCacheWorld s hi chance i = some (reply, after) ∧
      store.run (2 ^ world.itbDepth) named.op hi.name hi.data.mu = (answer, next) ∧
      decoded reply = answer.told chance.replyData (some (hi.header world.context.psalt)) ∧
      Sliced world after (Function.update slices (hi.puuid, hi.itbid) (some next)) := by
  obtain ⟨held, here, related⟩ := sliced.block i attached
  rw [key, bound] at here
  obtain rfl := Option.some.inj here
  rw [key] at related
  obtain ⟨reply, hmi, after, answer, next, hit, ran, told, kept⟩ :=
    hitBlock_served world.toCacheWorld chance related named (by rw [same]; exact searches)
  rw [same] at hit ran told
  refine ⟨reply, _, answer, next, hit, ran, told, ?_⟩
  have related' : Refines (world.nameHash (s.cbht.key i).1) (2 ^ world.itbDepth) (hmi, after)
      next := by
    rw [key]
    exact kept
  rw [← key]
  exact sliced.update attached related'

/-- A search that finds no block, for a request that creates, makes the slice. -/
theorem Sliced.create (sliced : Sliced world s slices)
    (absent : slices (hi.puuid, hi.itbid) = none) (named : NameRequest (world.nameHash hi.puuid))
    (same : named.hi = hi) (searches : Flag.has hi.flag INDEX_BY_ITB = false)
    (creates : Flag.has hi.flag INDEX_CREATE = true)
    (readErr : { err : Int // IsErrno err }) (attaches : chance.attachErr = 0) :
    TooDeep world.toCacheWorld s hi ∨ ∃ reply after answer next,
      cbhtSearch world.toCacheWorld s hi ⟨.failed readErr.1 readErr.2, chance.attachErr⟩ chance =
        some (reply, after) ∧
      NameStore.run (2 ^ world.itbDepth) ⟨∅, 0⟩ named.op hi.name hi.data.mu = (answer, next) ∧
      decoded reply = answer.told chance.replyData (some (hi.header world.context.psalt)) ∧
      Sliced world after (Function.update slices (hi.puuid, hi.itbid) (some next)) := by
  have missing := sliced.missing absent
  obtain ⟨asked, -⟩ := cbhtSearch_unattached sliced.good missing
    ⟨.failed readErr.1 readErr.2, chance.attachErr⟩ chance
  have goodNew := (sliced.good.withBlock hi (emptyItb world.itbDepth)).1
  rw [asked (Or.inr creates)]
  unfold cbhtItbMiss missBlock
  simp only [creates, Bool.true_or, if_true, if_pos attaches]
  rcases mdsCbhtInsert_spec goodNew.cbht s.blocks with stop | ⟨inserted, table, ended, -⟩
  · exact Or.inl stop
  · obtain ⟨-, err, oi, attached, -, key⟩ := sliced.good.inserted missing ended
    have made := sliced.inserted absent ended
    simp only [ended, err, true_or, if_true, oi, Option.getD_none]
    obtain ⟨reply, after, answer, next, hit, ran, told, kept⟩ :=
      made.hit chance ((attached s.blocks).mpr (Or.inr rfl)) key (Function.update_self _ _ _) named
        same searches
    rw [Function.update_idem] at kept
    exact Or.inr ⟨reply, after, answer, next, hit, ran, told, kept⟩

/-- A request that does not create finds nothing when the slice does not exist. -/
theorem Sliced.absent (sliced : Sliced world s slices)
    (absent : slices (hi.puuid, hi.itbid) = none)
    (creates : Flag.has hi.flag INDEX_CREATE = false)
    (symlink : Flag.has hi.flag INDEX_SYMLINK = false) (readErr : { err : Int // IsErrno err }) :
    cbhtSearch world.toCacheWorld s hi ⟨.failed readErr.1 readErr.2, chance.attachErr⟩ chance =
      some (.error (-ENOENT), s) := by
  obtain ⟨asked, gaveUp⟩ := cbhtSearch_unattached sliced.good (sliced.missing absent)
    ⟨.failed readErr.1 readErr.2, chance.attachErr⟩ chance
  by_cases asks : AsksMdsl world.toCacheWorld s hi
  · rw [asked asks]
    unfold cbhtItbMiss missBlock
    simp only [creates, symlink, Bool.or_self, Bool.false_eq_true, if_false]
  · exact gaveUp asks

/-- A search for a name is the operation on the slices. -/
theorem Sliced.searched (sliced : Sliced world s slices)
    (named : NameRequest (world.nameHash hi.puuid)) (same : named.hi = hi)
    (searches : Flag.has hi.flag INDEX_BY_ITB = false) (chance : Chance)
    (readErr : { err : Int // IsErrno err }) :
    TooDeep world.toCacheWorld s hi ∨ ∃ reply after slicesAfter,
      cbhtSearch world.toCacheWorld s hi ⟨.failed readErr.1 readErr.2, chance.attachErr⟩ chance =
        some (reply, after) ∧
      slices.search (2 ^ world.itbDepth) (hi.puuid, hi.itbid) named.op hi.name hi.data.mu chance
        (some (hi.header world.context.psalt)) = (decoded reply, slicesAfter) ∧
      Sliced world after slicesAfter := by
  have create : Flag.has hi.flag INDEX_CREATE = decide (named.op = .create) := by
    have own := named.only INDEX_CREATE (by decide)
    rw [same] at own
    rw [own]
    cases named.op <;> decide
  have symlink : Flag.has hi.flag INDEX_SYMLINK = false := by
    have own := named.only INDEX_SYMLINK (by decide)
    rw [same] at own
    rw [own]
    cases named.op <;> decide
  unfold Slices.search Slices.run
  rcases held : slices (hi.puuid, hi.itbid) with _ | store
  · by_cases creates : named.op = .create
    · rw [decide_eq_true creates] at create
      by_cases attaches : chance.attachErr = 0
      · rcases sliced.create held named same searches create readErr attaches with
          deep | ⟨reply, after, answer, next, ran, stored, told, kept⟩
        · exact Or.inl deep
        · refine Or.inr ⟨reply, after, _, ran, ?_, kept⟩
          rw [if_neg fun all => all.2.2 attaches]
          simp only [if_pos creates, stored, told]
      · refine Or.inr ⟨.error chance.attachErr, s, slices, ?_, ?_, sliced⟩
        · obtain ⟨asked, -⟩ := cbhtSearch_unattached sliced.good (sliced.missing held)
            ⟨.failed readErr.1 readErr.2, chance.attachErr⟩ chance
          rw [asked (Or.inr create)]
          unfold cbhtItbMiss missBlock
          simp only [create, Bool.true_or, if_true, if_neg attaches]
        · rw [if_pos ⟨rfl, creates, attaches⟩]
          rfl
    · rw [decide_eq_false creates] at create
      refine Or.inr ⟨.error (-ENOENT), s, slices, sliced.absent held create symlink readErr, ?_,
        sliced⟩
      rw [if_neg fun all => creates all.2.1]
      simp only [if_neg creates]
      rfl
  · obtain ⟨i, attached, key⟩ := sliced.slice _ (by rw [held]; exact Option.some_ne_none store)
    obtain ⟨reply, after, answer, next, hit, ran, told, kept⟩ :=
      sliced.hit chance attached key held named same searches
    refine Or.inr ⟨reply, after, _, ?_, ?_, kept⟩
    · rw [cbhtSearch_attached sliced.good attached key, hit]
    · rw [if_neg fun all => nomatch all.1]
      simp only [ran, told]

/-- A request of a client. -/
theorem Sliced.serve (sliced : Sliced world s slices) (op : NameOp)
    (request : ClientRequest) (chance : Chance) (readErr : { err : Int // IsErrno err })
    (sent : sizeofHvfsIndex ≤ request.len → request.datacheck = true →
      SentByName world.nameHash op request) :
    (∃ hi, op.index world.nameHash request = some hi ∧ TooDeep world.toCacheWorld s hi) ∨
      ∃ after, serviceStep world s (.request op request chance readErr sent) =
          some ((slices.serve world op request chance).1, after) ∧
        Sliced world after (slices.serve world op request chance).2 := by
  simp only [serviceStep, handlerPlan, Slices.serve]
  by_cases short : request.len < sizeofHvfsIndex
  · simp only [if_pos short]
    cases chance.hmr <;> exact Or.inr ⟨s, rfl, sliced⟩
  simp only [if_neg short]
  cases check : request.datacheck with
  | false =>
    simp only [Bool.not_false, if_true]
    cases chance.hmr <;> exact Or.inr ⟨s, rfl, sliced⟩
  | true =>
    have byName := sent (not_lt.mp short) check
    simp only [Bool.not_true, Bool.false_eq_true, Bool.true_eq_false, if_false]
    cases chance.hmr with
    | false => exact Or.inr ⟨s, rfl, sliced⟩
    | true =>
      simp only [Bool.not_true, Bool.false_eq_true, Bool.true_eq_false, if_false]
      rcases index : op.index world.nameHash request with _ | hi
      · simp only [if_pos (index_eq_none_iff.mp index)]
        exact Or.inr ⟨s, rfl, sliced⟩
      · have payload : ¬(op = .update ∧ request.dlen = 0) := by
          rw [← index_eq_none_iff, index]
          exact Option.some_ne_none hi
        obtain ⟨-, -, puuid, itbid, name, mu⟩ := index_fields index
        obtain ⟨searches, named, rfl, same⟩ := byName.nameRequest index
        have echo : echoed world named.op request = some (hi.header world.context.psalt) := by
          rw [echoed, index, Option.map_some]
        simp only [if_neg payload, echo, ← puuid, ← itbid, ← name, ← mu]
        rcases sliced.searched named same searches chance readErr with
          deep | ⟨reply, after, slicesAfter, ran, served, kept⟩
        · exact Or.inl ⟨hi, rfl, deep⟩
        · rw [ran, served]
          exact Or.inr ⟨after, rfl, kept⟩

/-- An event: it is matched on the slices, or a CREATE needs a directory that is too deep. -/
theorem Sliced.step (sliced : Sliced world s slices)
    (event : ServiceEvent world.nameHash) :
    (∃ op request chance readErr sent hi, event = .request op request chance readErr sent ∧
      op.index world.nameHash request = some hi ∧ TooDeep world.toCacheWorld s hi) ∨
    ∃ answer after slicesAfter, serviceStep world s event = some (answer, after) ∧
      Slices.Step world slices event answer slicesAfter ∧ Sliced world after slicesAfter := by
  cases event with
  | request op request chance readErr sent =>
    rcases sliced.serve op request chance readErr sent with
      ⟨hi, index, deep⟩ | ⟨after, ran, kept⟩
    · exact Or.inl ⟨op, request, chance, readErr, sent, hi, rfl, index, deep⟩
    · exact Or.inr ⟨_, after, _, ran, .request slices op request chance readErr sent, kept⟩
  | reclaim i limit count =>
    right
    unfold serviceStep
    by_cases free : (s.cbht.itb i).be = none
    · simp only [if_pos free]
      exact ⟨_, s, slices, rfl, .idle slices i limit count, sliced⟩
    · obtain ⟨store, bound, related⟩ := sliced.block i free
      obtain ⟨next, step, kept⟩ := nameStep_refines (s.hmi, s.itb i)
        (NameCall.reclaim limit count) related
      simp only [if_neg free]
      rcases pass : asyncUnlinkIte limit (s.itb i) count with _ | ⟨after, counted⟩
      · simp only [nameStep, pass] at step
        cases step
      · simp only [nameStep, pass] at step kept
        cases step with
        | reclaim _ _ _ fewer =>
          exact ⟨_, _, _, rfl, .reclaim slices i limit count _ store bound _ fewer,
            sliced.update free kept⟩

/-- Right after `mds_init` there is no slice. -/
theorem init_represents (world : ServiceWorld) (bdepth : Nat) (hmi : Hmi) :
    Sliced world (CacheServer.init world bdepth hmi) fun _ => none where
  good := ⟨(mdsCbhtInit_tabled world.hvfsHash bdepth fun _ => (0, 0)).good,
    fun _ attached => absurd rfl attached⟩
  block _ attached := absurd rfl attached
  slice _ there := absurd rfl there

/-- Whatever requests by name and passes run, for every hash and every bucket depth, the clients
have the replies that a family of maps of names gives, byte for byte through the reply, unless at
some time a CREATE would make the directory of the CBHT too deep. -/
theorem service_refines_slices (world : ServiceWorld) (bdepth : Nat) (hmi : Hmi)
    (events : List (ServiceEvent world.nameHash)) :
    (∃ given final slices,
      trace (serviceStep world) (CacheServer.init world bdepth hmi) events = some (given, final) ∧
      MayAnswer (Slices.Step world) (fun _ => none) events given slices ∧
      Sliced world final slices) ∨
    ∃ before event after given reached, events = before ++ event :: after ∧
      trace (serviceStep world) (CacheServer.init world bdepth hmi) before =
        some (given, reached) ∧
      ∃ op request chance readErr sent hi, event = .request op request chance readErr sent ∧
        op.index world.nameHash request = some hi ∧ TooDeep world.toCacheWorld reached hi :=
  trace_refines (Sliced world) _ (fun _ _ event sliced => sliced.step event) _ _ events
    (init_represents world bdepth hmi)

end Runs

end Hvfs
