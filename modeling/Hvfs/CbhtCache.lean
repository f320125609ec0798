/-
This file embeds `mds_cbht_search` with the table that it looks into and with
`cbht_itb_miss`, which asks the storage server for a block that is not in the
table, and says when the answer depends on what else the table holds.

A request runs alone here: the block it finds is not COWED, and no other request
inserts the same block meanwhile.
-/

import Hvfs.CbhtEnds
import Hvfs.ReplyRoundTrip

namespace Hvfs

/-! ### The server -/

/-- How `mds_read_itb` ends: with the block, or with an error. The storage server answers -ENOENT
when it does not have the block. -/
inductive ReadItb
  | stored (i : Itb)
  | failed (err : Int) (errno : IsErrno err)

/-- What does not change: the hash of keys, the depth of new blocks, and the reply's context. -/
structure CacheWorld where
  hvfsHash : U64 → U64 → U64
  itbDepth : Nat
  context : ReplyContext

/-- The server with its table. A block is named by the order of its allocation; `itb` is what the
blocks hold. -/
structure CacheServer where
  hmi : Hmi
  cbht : Cbht
  blocks : Nat
  itb : Nat → Itb

/-- What happens to a request whose block is missing: the outcome of `mds_read_itb`, and the error
of `get_free_itb` or of an allocation in `mds_cbht_insert_bbrlocked`, or 0. -/
structure Miss where
  read : ReadItb
  attachErr : Int

/-- What the client gets: the reply or its error. -/
abbrev Visible := Except Int MdReply

/-- `mds_send_reply` as the client sees it. -/
def visible (outcome : Int × MdReply) : Visible :=
  if outcome.1 = 0 then .ok (sendReply outcome.2) else .error outcome.1

/-! ### Searching -/

section Search

variable (world : CacheWorld) (s : CacheServer) (hi : HvfsIndex) (miss : Miss) (chance : Chance)

/-- `cbht_itb_hit` on the block `i`. -/
def hitBlock (i : Nat) : Option (Visible × CacheServer) :=
  (cbhtItbHitReply world.context chance s.hmi (s.itb i) hi getHmr).bind fun outcome =>
    (cbhtItbHit chance s.hmi (s.itb i) hi).map fun (_, hmi, after) =>
      (visible outcome, { s with
        hmi := hmi
        itb := Function.update s.itb i after })

/-- The server with one more block, which has the key of the request. -/
def newBlock (i : Itb) : CacheServer :=
  { s with
    cbht := { s.cbht with
      itb := Function.update s.cbht.itb s.blocks ⟨hi.puuid, hi.itbid, 0, none⟩ }
    blocks := s.blocks + 1
    itb := Function.update s.itb s.blocks i }

/-- The block that `cbht_itb_miss` inserts: the one read, or a new one for a request that
creates, whatever the error of the read. -/
def missBlock : Option Itb :=
  match miss.read with
  | .stored i => some i
  | .failed _ _ =>
    if Flag.has hi.flag INDEX_CREATE || Flag.has hi.flag INDEX_SYMLINK then
      some (emptyItb world.itbDepth)
    else none

/-- `cbht_itb_miss`. `none` is a directory that would get too deep. -/
def cbhtItbMiss : Option (Visible × CacheServer) :=
  match missBlock world hi miss with
  | none => some (.error (-ENOENT), s)
  | some i =>
    if miss.attachErr = 0 then
      let n := s.blocks
      let s := newBlock s hi i
      match mdsCbhtInsert world.hvfsHash s.cbht n with
      | .error _ => none
      | .ok (reply, cbht) =>
        if reply.err = 0 ∨ reply.err = -EEXIST then
          hitBlock world { s with cbht := cbht } hi chance (reply.oi.getD n)
        else some (.error reply.err, { s with cbht := cbht })
    else some (.error miss.attachErr, s)

/-- `mds_cbht_search`. -/
def cbhtSearch : Option (Visible × CacheServer) :=
  let hash := world.hvfsHash hi.puuid hi.itbid
  match mdsCbhtSearchDir s.cbht hash with
  | none => some (.error (-ENOENT), s)
  | some b =>
    if (s.cbht.bucket b).active = 0 then
      if Flag.has hi.flag INDEX_CREATE then cbhtItbMiss world s hi miss chance
      else some (.error (-ENOENT), s)
    else
      match ((s.cbht.bucket b).content (hash.toNat &&& ((1 <<< s.cbht.bucketDepth) - 1))).find?
          (s.cbht.keyIs hi.puuid hi.itbid) with
      | some i => hitBlock world s hi chance i
      | none => cbhtItbMiss world s hi miss chance

end Search

/-! ### What a search depends on -/

/-- The table is an extendible hash table of blocks that exist. -/
structure CacheServer.Good (world : CacheWorld) (s : CacheServer) : Prop where
  cbht : CbhtGood world.hvfsHash s.cbht
  bound : ∀ i, s.cbht.Attached i → i < s.blocks

/-- A block with this key is attached. -/
def CacheServer.Attaches (s : CacheServer) (hi : HvfsIndex) : Prop :=
  ∃ i, s.cbht.Attached i ∧ s.cbht.key i = (hi.puuid, hi.itbid)

/-- The bucket of the key has been used: its count is not zero. -/
def BucketUsed (world : CacheWorld) (s : CacheServer) (hi : HvfsIndex) : Prop :=
  ∃ b, mdsCbhtSearchDir s.cbht (world.hvfsHash hi.puuid hi.itbid) = some b ∧
    (s.cbht.bucket b).active ≠ 0

/-- A missed search asks the storage server. -/
def AsksMdsl (world : CacheWorld) (s : CacheServer) (hi : HvfsIndex) : Prop :=
  BucketUsed world s hi ∨ Flag.has hi.flag INDEX_CREATE = true

/-- What a search answers that asks the storage server; `none` is a search that does not end. -/
def missAnswer (world : CacheWorld) (hmi : Hmi) (hi : HvfsIndex) (miss : Miss) (chance : Chance) :
    Option Visible :=
  match missBlock world hi miss with
  | none => some (.error (-ENOENT))
  | some i =>
    if miss.attachErr = 0 then
      (cbhtItbHitReply world.context chance hmi i hi getHmr).map visible
    else some (.error miss.attachErr)

/-- The search comes to insert a block, for which the bucket of the key has no room and gets none by
splitting (see `RoomFor`). -/
def Stuck (world : CacheWorld) (s : CacheServer) (hi : HvfsIndex) (miss : Miss) : Prop :=
  (missBlock world hi miss).isSome ∧ miss.attachErr = 0 ∧
    ¬RoomFor s.cbht (world.hvfsHash hi.puuid hi.itbid)

/-- The search in the block that is read, or in the new one, does not return. -/
def BlockEndless (world : CacheWorld) (hmi : Hmi) (hi : HvfsIndex) (miss : Miss) (chance : Chance) :
    Prop :=
  ∃ i, missBlock world hi miss = some i ∧ Flag.has hi.flag INDEX_BY_ITB = false ∧
    itbSearchCow hmi i hi chance.memory = none

/-- A block that a search looks into without success. -/
def NoMatch (chance : Chance) (i : Itb) (hi : HvfsIndex) : Prop :=
  Flag.has hi.flag INDEX_BY_ITB = false ∧
    itbPlan (searchBlock i hi chance.memory) hi = some (.done (-ENOENT) none)

/-- The storage server's block, or the new one, leads to -ENOENT as well. -/
def MissesToo (world : CacheWorld) (hi : HvfsIndex) (miss : Miss) (chance : Chance) : Prop :=
  match missBlock world hi miss with
  | none => True
  | some i => miss.attachErr = -ENOENT ∨ miss.attachErr = 0 ∧ NoMatch chance i hi

section Spec

variable {world : CacheWorld} {s after : CacheServer} {hi : HvfsIndex} {miss : Miss}
  {chance : Chance} {answer : Visible}

/-- The server with one more block is good, and attaches what it attached. -/
theorem CacheServer.Good.withBlock (good : s.Good world) (hi : HvfsIndex) (i : Itb) :
    (newBlock s hi i).Good world ∧
      (∀ j, (newBlock s hi i).cbht.Attached j ↔ s.cbht.Attached j) ∧
      (∀ j, s.cbht.Attached j → (newBlock s hi i).cbht.key j = s.cbht.key j) ∧
      (newBlock s hi i).cbht.key s.blocks = (hi.puuid, hi.itbid) := by
  have free : (s.cbht.itb s.blocks).be = none := by
    by_contra attached
    exact absurd (good.bound s.blocks attached) (lt_irrefl s.blocks)
  have attaches : ∀ j, (newBlock s hi i).cbht.Attached j ↔ s.cbht.Attached j := by
    intro j
    unfold newBlock Cbht.Attached
    simp only [Function.update_apply]
    split_ifs with same
    · rw [same, free]
    · rfl
  refine ⟨⟨good.cbht.setHeader free rfl, fun j attached => ?_⟩, attaches, fun j attached => ?_, ?_⟩
  · exact Nat.lt_succ_of_lt (good.bound j ((attaches j).mp attached))
  · have other : j ≠ s.blocks := Nat.ne_of_lt (good.bound j attached)
    unfold newBlock Cbht.key
    simp only [Function.update_of_ne other]
  · unfold newBlock Cbht.key
    simp only [Function.update_self]

/-- A search whose block is not in the table asks the storage server or gives up. -/
theorem cbhtSearch_unattached (good : s.Good world) (missing : ¬s.Attaches hi) (miss : Miss)
    (chance : Chance) :
    (AsksMdsl world s hi → cbhtSearch world s hi miss chance = cbhtItbMiss world s hi miss chance) ∧
      (¬AsksMdsl world s hi →
        cbhtSearch world s hi miss chance = some (.error (-ENOENT), s)) := by
  obtain ⟨b, search⟩ : ∃ b,
      mdsCbhtSearchDir s.cbht (world.hvfsHash hi.puuid hi.itbid) = some b :=
    ⟨_, good.cbht.dir.searchDir _⟩
  have used : BucketUsed world s hi ↔ (s.cbht.bucket b).active ≠ 0 := by
    unfold BucketUsed
    rw [search]
    constructor
    · rintro ⟨other, same, active⟩
      obtain rfl := Option.some.inj same
      exact active
    · exact fun active => ⟨b, rfl, active⟩
  have unfound : ((s.cbht.bucket b).content (s.cbht.low (world.hvfsHash hi.puuid hi.itbid))).find?
      (s.cbht.keyIs hi.puuid hi.itbid) = none := by
    cases hit : ((s.cbht.bucket b).content
        (s.cbht.low (world.hvfsHash hi.puuid hi.itbid))).find? (s.cbht.keyIs hi.puuid hi.itbid) with
    | none => rfl
    | some i => exact absurd ⟨i, (good.cbht.find_iff search).mp hit⟩ missing
  unfold AsksMdsl
  rw [used]
  unfold cbhtSearch
  simp only [search, low_eq, unfound]
  by_cases empty : (s.cbht.bucket b).active = 0
  · rw [if_pos empty, or_iff_right (not_not.mpr empty)]
    exact ⟨fun create => if_pos create, fun other => if_neg other⟩
  · rw [if_neg empty]
    exact ⟨fun _ => rfl, fun other => absurd (Or.inl empty) other⟩

/-- A search whose block is in the table looks into it. -/
theorem cbhtSearch_attached (good : s.Good world) {i : Nat} (attached : s.cbht.Attached i)
    (key : s.cbht.key i = (hi.puuid, hi.itbid)) (miss : Miss) (chance : Chance) :
    cbhtSearch world s hi miss chance = hitBlock world s hi chance i := by
  obtain ⟨b, search⟩ : ∃ b,
      mdsCbhtSearchDir s.cbht (world.hvfsHash hi.puuid hi.itbid) = some b :=
    ⟨_, good.cbht.dir.searchDir _⟩
  have hit := (good.cbht.find_iff search).mpr ⟨attached, key⟩
  have used := good.cbht.active_ne_zero (good.cbht.dir.searchDir_lt search) (low_lt s.cbht _)
    (List.mem_of_find?_eq_some hit)
  unfold cbhtSearch
  simp only [search, low_eq, hit, if_neg used]

/-- A search in a block returns when its reply does. -/
theorem hitBlock_fst (world : CacheWorld) (s : CacheServer) (hi : HvfsIndex) (chance : Chance)
    (i : Nat) : (hitBlock world s hi chance i).map Prod.fst =
      (cbhtItbHitReply world.context chance s.hmi (s.itb i) hi getHmr).map visible := by
  have errors := cbhtItbHitReply_err world.context chance s.hmi (s.itb i) hi getHmr
  unfold hitBlock
  cases reply : cbhtItbHitReply world.context chance s.hmi (s.itb i) hi getHmr with
  | none => rfl
  | some outcome =>
    rw [reply] at errors
    cases hit : cbhtItbHit chance s.hmi (s.itb i) hi with
    | none =>
      rw [hit] at errors
      cases errors
    | some result => rfl

/-- The answer of a block is the one its content gives. -/
theorem hitBlock_answer {i : Nat} (ran : hitBlock world s hi chance i = some (answer, after)) :
    (cbhtItbHitReply world.context chance s.hmi (s.itb i) hi getHmr).map visible = some answer ∧
      after.cbht = s.cbht ∧ after.blocks = s.blocks := by
  obtain ⟨outcome, reply, hit⟩ := Option.bind_eq_some_iff.mp ran
  obtain ⟨⟨err, hmi, left⟩, -, same⟩ := Option.map_eq_some_iff.mp hit
  obtain ⟨rfl, rfl⟩ := Prod.mk.inj same
  exact ⟨by rw [reply]; rfl, rfl, rfl⟩

/-- The server after the insertion of a block whose key was not attached. -/
theorem CacheServer.Good.inserted (good : s.Good world) (missing : ¬s.Attaches hi) {i : Itb}
    {reply : InsertReply} {next : Cbht}
    (ended : mdsCbhtInsert world.hvfsHash (newBlock s hi i).cbht s.blocks = .ok (reply, next)) :
    ({ newBlock s hi i with cbht := next } : CacheServer).Good world ∧
      reply.err = 0 ∧ reply.oi = none ∧
      (∀ j, next.Attached j ↔ s.cbht.Attached j ∨ j = s.blocks) ∧
      (∀ j, s.cbht.Attached j → next.key j = s.cbht.key j) ∧
      next.key s.blocks = (hi.puuid, hi.itbid) := by
  obtain ⟨goodNew, same, keys, key⟩ := good.withBlock hi i
  rcases mdsCbhtInsert_spec goodNew.cbht s.blocks with stop | ⟨other, after, ran, inserted⟩
  · rw [stop] at ended
    cases ended
  · obtain ⟨rfl, rfl⟩ := Prod.mk.inj (Except.ok.inj (ended.symm.trans ran))
    rcases inserted.outcome with ⟨j, attached, sameKey, -, -, -⟩ | ⟨-, err, oi, attached⟩
    · have before := (same j).mp attached
      rw [key, keys j before] at sameKey
      exact absurd ⟨j, before, sameKey⟩ missing
    · have attaches : ∀ j, next.Attached j ↔ s.cbht.Attached j ∨ j = s.blocks :=
        fun j => (attached j).trans (or_congr_left (same j))
      refine ⟨⟨inserted.good, fun j both => ?_⟩, err, oi, attaches, fun j before => ?_, ?_⟩
      · rcases (attaches j).mp both with before | rfl
        · exact Nat.lt_succ_of_lt (good.bound j before)
        · exact Nat.lt_succ_self _
      · rw [inserted.key, keys j before]
      · rw [inserted.key, key]

/-- The block that is new to the table does not count among those that are to be split. -/
theorem CacheServer.Good.room_newBlock (good : s.Good world) (hi : HvfsIndex) (i : Itb) :
    RoomFor (newBlock s hi i).cbht (world.hvfsHash hi.puuid hi.itbid) ↔
      RoomFor s.cbht (world.hvfsHash hi.puuid hi.itbid) := by
  have free : (s.cbht.itb s.blocks).be = none := by
    by_contra attached
    exact absurd (good.bound s.blocks attached) (lt_irrefl s.blocks)
  refine forall_congr' fun b => forall_congr' fun _ => forall_congr' fun _ => ?_
  unfold Separated
  refine exists_congr fun k => and_congr Iff.rfl (and_congr Iff.rfl (or_congr ?_ Iff.rfl))
  refine exists_congr fun j => exists_congr fun o => ?_
  by_cases new : j = s.blocks
  · subst new
    have freeNew : ((newBlock s hi i).cbht.itb s.blocks).be = none := by
      unfold newBlock
      simp only [Function.update_self]
    exact iff_of_false (fun both => by rw [freeNew] at both; cases both.1)
      fun both => by rw [free] at both; cases both.1
  · unfold newBlock
    simp only [Function.update_of_ne new]
    rfl

/-- A search that comes to a full bucket without a way to split it does not end. -/
theorem cbhtItbMiss_stuck (good : s.Good world) (stuck : Stuck world s hi miss) :
    cbhtItbMiss world s hi miss chance = none := by
  obtain ⟨some, attaches, none⟩ := stuck
  obtain ⟨i, block⟩ := Option.isSome_iff_exists.mp some
  obtain ⟨goodNew, -, -, key⟩ := good.withBlock hi i
  obtain ⟨puuid, itbid⟩ := Prod.mk.inj key
  unfold cbhtItbMiss
  rw [block]
  simp only [if_pos attaches]
  rcases insertEnds_cases goodNew.cbht s.blocks with ⟨room, -⟩ | ⟨-, stop⟩
  · rw [puuid, itbid] at room
    exact absurd ((good.room_newBlock hi i).mp room) none
  · rw [stop]

/-- Another one answers what the block leads to. -/
theorem cbhtItbMiss_free (good : s.Good world) (missing : ¬s.Attaches hi)
    (free : ¬Stuck world s hi miss) :
    (cbhtItbMiss world s hi miss chance).map Prod.fst =
      missAnswer world s.hmi hi miss chance := by
  unfold cbhtItbMiss missAnswer
  cases block : missBlock world hi miss with
  | none => rfl
  | some i =>
    simp only
    by_cases attaches : miss.attachErr = 0
    · rw [if_pos attaches, if_pos attaches]
      obtain ⟨goodNew, -, -, key⟩ := good.withBlock hi i
      obtain ⟨puuid, itbid⟩ := Prod.mk.inj key
      rcases insertEnds_cases goodNew.cbht s.blocks with ⟨-, ends⟩ | ⟨none, -⟩
      · obtain ⟨reply, next, -, -, ended, -⟩ := ends
        obtain ⟨-, err, oi, -⟩ := good.inserted missing ended
        rw [ended]
        simp only [err, true_or, if_true, oi, Option.getD_none]
        rw [hitBlock_fst]
        have content : (newBlock s hi i).itb s.blocks = i := Function.update_self _ _ _
        simp only [content]
        rfl
      · rw [puuid, itbid] at none
        exact absurd ⟨by rw [block]; rfl, attaches,
          fun room => none ((good.room_newBlock hi i).mpr room)⟩ free
    · rw [if_neg attaches, if_neg attaches]
      rfl

/-- What `cbht_itb_miss` answers does not depend on the table. It attaches the block that was read,
or the new one. -/
theorem cbhtItbMiss_answer (good : s.Good world) (missing : ¬s.Attaches hi)
    (ran : cbhtItbMiss world s hi miss chance = some (answer, after)) :
    missAnswer world s.hmi hi miss chance = some answer ∧
      (after.Attaches hi ↔ (missBlock world hi miss).isSome ∧ miss.attachErr = 0) := by
  unfold cbhtItbMiss at ran
  unfold missAnswer
  cases block : missBlock world hi miss with
  | none =>
    rw [block] at ran
    obtain ⟨rfl, rfl⟩ := Prod.mk.inj (Option.some.inj ran)
    exact ⟨rfl, iff_of_false missing fun both => nomatch both.1⟩
  | some i =>
    rw [block] at ran
    simp only at ran ⊢
    by_cases attaches : miss.attachErr = 0
    · rw [if_pos attaches] at ran ⊢
      split at ran
      · cases ran
      · rename_i reply next ended
        obtain ⟨-, err, oi, attached, -, key⟩ := good.inserted missing ended
        simp only [err, true_or, if_true, oi, Option.getD_none] at ran
        obtain ⟨hit, table, -⟩ := hitBlock_answer ran
        refine ⟨?_, iff_of_true ⟨s.blocks, ?_, ?_⟩ ⟨rfl, attaches⟩⟩
        · have content : (newBlock s hi i).itb s.blocks = i := Function.update_self _ _ _
          rw [← hit]
          simp only [content]
          rfl
        · rw [table]
          exact (attached s.blocks).mpr (Or.inr rfl)
        · rw [table, key]
    · rw [if_neg attaches] at ran ⊢
      obtain ⟨rfl, rfl⟩ := Prod.mk.inj (Option.some.inj ran)
      exact ⟨rfl, iff_of_false missing fun both => attaches both.2⟩

/-- A search that found an entry does not end with -ENOENT. -/
theorem planFound_ne_enoent {i : Itb} {cell : Nat} {data : Option MduReply} :
    planFound i hi cell ≠ .done (-ENOENT) data := by
  have errors : (-EEXIST : Int) ≠ -ENOENT ∧ (-EACCES : Int) ≠ -ENOENT ∧
      (-EINVAL : Int) ≠ -ENOENT ∧ (0 : Int) ≠ -ENOENT := by decide
  unfold planFound
  grind

/-- A plan that returns -ENOENT hands out nothing. -/
theorem itbPlan_enoent {i : Itb} {data : Option MduReply}
    (plan : itbPlan i hi = some (.done (-ENOENT) data)) : data = none := by
  unfold itbPlan at plan
  split at plan
  · cases plan
  · unfold planMissing at plan
    split at plan
    · cases plan
    · exact (SearchPlan.done.inj (Option.some.inj plan)).2.symm
  · exact absurd (Option.some.inj plan) planFound_ne_enoent

theorem itbAct_ne_enoent {hmi : Hmi} {i : Itb} {act : SearchAct} {result : SearchResult}
    (ran : itbAct hmi i hi act = some result) : result.err ≠ -ENOENT := by
  have zero : (0 : Int) ≠ -ENOENT := by decide
  cases act with
  | update cell =>
    obtain rfl := Option.some.inj ran
    exact zero
  | unlink cell =>
    simp only [itbAct] at ran
    split at ran
    · cases ran
    · obtain rfl := Option.some.inj ran
      exact zero
  | linkAdd cell =>
    obtain rfl := Option.some.inj ran
    exact zero
  | create =>
    obtain rfl := Option.some.inj ran
    unfold itbAddIte
    simp only
    split
    · split
      · exact zero
      · exact show (-EINVAL : Int) ≠ -ENOENT by decide
    · exact show (-ESPLIT : Int) ≠ -ENOENT by decide

/-- A search in a block ends with -ENOENT exactly if it finds no entry and creates none. -/
theorem itbSearch_enoent {hmi : Hmi} {i : Itb} {result : SearchResult}
    (ran : itbSearch hmi i hi = some result) :
    result.err = -ENOENT ↔ itbPlan i hi = some (.done (-ENOENT) none) := by
  unfold itbSearch at ran
  cases plan : itbPlan i hi with
  | none => rw [plan] at ran; cases ran
  | some next =>
    rw [plan] at ran
    cases next with
    | done err data =>
      obtain rfl := Option.some.inj ran
      constructor
      · intro missed
        simp only at missed
        subst missed
        rw [itbPlan_enoent plan]
      · exact fun same => (SearchPlan.done.inj (Option.some.inj same)).1
    | dirty act => exact iff_of_false (itbAct_ne_enoent ran) nofun

theorem cbhtItbHitReply_enoent {hmi : Hmi} {i : Itb} {outcome : Int × MdReply}
    (ran : cbhtItbHitReply world.context chance hmi i hi getHmr = some outcome) :
    visible outcome = .error (-ENOENT) ↔ NoMatch chance i hi := by
  have shown : visible outcome = .error (-ENOENT) ↔ outcome.1 = -ENOENT := by
    unfold visible
    split
    · rename_i ok
      rw [ok]
      exact iff_of_false nofun (by decide)
    · exact ⟨fun same => Except.error.inj same, congrArg Except.error⟩
  rw [shown]
  unfold cbhtItbHitReply at ran
  unfold NoMatch
  by_cases readdir : Flag.has hi.flag INDEX_BY_ITB = true
  · rw [if_pos readdir] at ran
    obtain rfl := Option.some.inj ran
    exact iff_of_false (show (0 : Int) ≠ -ENOENT by decide) fun both => by
      rw [both.1] at readdir
      cases readdir
  · rw [if_neg readdir, itbSearchCow_eq] at ran
    obtain ⟨result, search, reply⟩ := Option.map_eq_some_iff.mp ran
    rw [← itbSearch_enoent search, and_iff_right (Bool.not_eq_true _ ▸ readdir), ← reply]
    by_cases ok : result.err = 0
    · rw [if_pos ok, ok]
      simp only
      split
      · exact Iff.rfl
      · exact iff_of_false (show (-ENOMEM : Int) ≠ -ENOENT by decide) (by decide)
    · rw [if_neg ok]

/-- Asking the storage server ends with -ENOENT exactly if it misses as well. -/
theorem missAnswer_enoent {hmi : Hmi}
    (ran : missAnswer world hmi hi miss chance = some answer) :
    answer = .error (-ENOENT) ↔ MissesToo world hi miss chance := by
  unfold missAnswer at ran
  unfold MissesToo
  cases block : missBlock world hi miss with
  | none =>
    rw [block] at ran
    obtain rfl := Option.some.inj ran
    exact iff_of_true rfl trivial
  | some i =>
    rw [block] at ran
    simp only at ran ⊢
    by_cases attaches : miss.attachErr = 0
    · rw [if_pos attaches] at ran
      obtain ⟨outcome, reply, rfl⟩ := Option.map_eq_some_iff.mp ran
      rw [cbhtItbHitReply_enoent reply, attaches]
      refine ⟨fun none => Or.inr ⟨rfl, none⟩, ?_⟩
      rintro (wrong | ⟨-, none⟩)
      · exact absurd wrong (by decide)
      · exact none
    · rw [if_neg attaches] at ran
      obtain rfl := Option.some.inj ran
      refine ⟨fun same => Or.inl (Except.error.inj same), ?_⟩
      rintro (same | ⟨none, -⟩)
      · exact congrArg Except.error same
      · exact absurd none attaches

/-- It does not end exactly if the search in the block does not. -/
theorem missAnswer_none_iff {hmi : Hmi} (attaches : miss.attachErr = 0) :
    missAnswer world hmi hi miss chance = none ↔ BlockEndless world hmi hi miss chance := by
  unfold missAnswer BlockEndless cbhtItbHitReply
  cases missBlock world hi miss with
  | none => exact iff_of_false nofun fun ⟨_, absurdity, _⟩ => nomatch absurdity
  | some i =>
    simp only [if_pos attaches, Option.map_eq_none_iff, Option.some.injEq, exists_eq_left']
    split
    · rename_i readdir
      exact iff_of_false nofun fun both => by rw [readdir] at both; cases both.1
    · rename_i readdir
      rw [Option.map_eq_none_iff, and_iff_right (Bool.not_eq_true _ ▸ readdir)]

theorem missAnswer_misses_iff {hmi : Hmi} :
    missAnswer world hmi hi miss chance = some (.error (-ENOENT)) ↔
      MissesToo world hi miss chance := by
  cases answered : missAnswer world hmi hi miss chance with
  | some answer =>
    rw [Option.some.injEq]
    exact missAnswer_enoent answered
  | none =>
    refine iff_of_false nofun fun misses => ?_
    unfold missAnswer at answered
    unfold MissesToo at misses
    cases block : missBlock world hi miss with
    | none =>
      rw [block] at answered
      cases answered
    | some i =>
      rw [block] at answered misses
      simp only at answered misses
      rcases misses with wrong | ⟨attaches, readdir, plan⟩
      · rw [if_neg (by rw [wrong]; decide)] at answered
        cases answered
      · rw [if_pos attaches, Option.map_eq_none_iff] at answered
        unfold cbhtItbHitReply at answered
        rw [readdir, if_neg Bool.false_ne_true, itbSearchCow_eq, Option.map_eq_none_iff] at answered
        unfold itbSearch at answered
        rw [plan] at answered
        cases answered

/-- A new block is always searched to the end. -/
theorem cbhtItbHitReply_empty (world : CacheWorld) (chance : Chance) (hmi : Hmi) (hi : HvfsIndex) :
    ∃ outcome, cbhtItbHitReply world.context chance hmi (emptyItb world.itbDepth) hi getHmr =
      some outcome := by
  unfold cbhtItbHitReply
  split
  · exact ⟨_, rfl⟩
  · obtain ⟨chain, shape⟩ : ∃ chain, Shape (searchBlock (emptyItb world.itbDepth) hi chance.memory)
        chain := by
      rcases searchBlock_cases (emptyItb world.itbDepth) hi chance.memory with same | ⟨copied, same⟩
      · exact ⟨_, same ▸ emptyItb_shape _⟩
      · exact ⟨_, same ▸ itbCow_shape (emptyItb_shape _) copied⟩
    obtain ⟨result, -, search, -⟩ := itbSearch_changed shape hmi hi
    rw [itbSearchCow_eq, search]
    exact ⟨_, rfl⟩

theorem hitBlock_good (good : s.Good world) {i : Nat}
    (ran : hitBlock world s hi chance i = some (answer, after)) : after.Good world := by
  obtain ⟨-, table, blocks⟩ := hitBlock_answer ran
  exact ⟨table ▸ good.cbht, fun j attached => by
    rw [table] at attached
    rw [blocks]
    exact good.bound j attached⟩

/-- A search leaves a good table. -/
theorem cbhtSearch_good (good : s.Good world)
    (ran : cbhtSearch world s hi miss chance = some (answer, after)) : after.Good world := by
  by_cases attaches : s.Attaches hi
  · obtain ⟨i, attached, key⟩ := attaches
    rw [cbhtSearch_attached good attached key] at ran
    exact hitBlock_good good ran
  · obtain ⟨asked, gaveUp⟩ := cbhtSearch_unattached good attaches miss chance
    by_cases asks : AsksMdsl world s hi
    · rw [asked asks] at ran
      unfold cbhtItbMiss at ran
      split at ran
      · obtain ⟨-, rfl⟩ := Prod.mk.inj (Option.some.inj ran)
        exact good
      · split at ran
        · simp only at ran
          split at ran
          · cases ran
          · rename_i ended
            obtain ⟨goodNext, err, -⟩ := good.inserted attaches ended
            rw [if_pos (Or.inl err)] at ran
            exact hitBlock_good goodNext ran
        · obtain ⟨-, rfl⟩ := Prod.mk.inj (Option.some.inj ran)
          exact good
    · rw [gaveUp asks] at ran
      obtain ⟨-, rfl⟩ := Prod.mk.inj (Option.some.inj ran)
      exact good

end Spec

/-! ### The table as a map -/

/-- The server with its table as a map from keys to blocks. -/
def CacheServer.mds (world : CacheWorld) (s : CacheServer) : Mds where
  hmi := s.hmi
  cbht := fun key => (mdsCbhtFind world.hvfsHash s.cbht key.1 key.2).map s.itb

/-- The return value behind an answer. -/
def returned : Visible → Int
  | .ok _ => 0
  | .error err => err

theorem returned_visible (outcome : Int × MdReply) : returned (visible outcome) = outcome.1 := by
  unfold visible
  split
  · rename_i ok
    exact ok.symm
  · rfl

section Map

variable {world : CacheWorld} {s after : CacheServer} {hi : HvfsIndex} {miss : Miss}
  {chance : Chance} {answer : Visible}

/-- The map has the blocks that are attached, under their keys. -/
theorem CacheServer.Good.mds_iff (good : s.Good world) {key : U64 × U64} {block : Itb} :
    (s.mds world).cbht key = some block ↔
      ∃ i, s.cbht.Attached i ∧ s.cbht.key i = key ∧ s.itb i = block := by
  change (mdsCbhtFind world.hvfsHash s.cbht key.1 key.2).map s.itb = some block ↔ _
  rw [Option.map_eq_some_iff]
  refine exists_congr fun i => ?_
  rw [good.cbht.mdsCbhtFind_iff, and_assoc]

/-- A server that has other contents or blocks at one key only. -/
theorem CacheServer.Good.mds_update (good : s.Good world) (goodAfter : after.Good world)
    {changed : U64 × U64} {block : Itb}
    (here : ∃ i, after.cbht.Attached i ∧ after.cbht.key i = changed ∧ after.itb i = block)
    (there : ∀ key ≠ changed, ∀ i, (after.cbht.Attached i ∧ after.cbht.key i = key ↔
      s.cbht.Attached i ∧ s.cbht.key i = key) ∧
      (s.cbht.Attached i ∧ s.cbht.key i = key → after.itb i = s.itb i)) :
    after.mds world = ⟨after.hmi, Function.update (s.mds world).cbht changed (some block)⟩ := by
  refine congrArg (Mds.mk after.hmi) (funext fun key => ?_)
  change (after.mds world).cbht key = _
  by_cases same : key = changed
  · subst same
    rw [Function.update_self]
    exact goodAfter.mds_iff.mpr here
  · rw [Function.update_of_ne same]
    refine Option.ext fun content => ?_
    rw [goodAfter.mds_iff, good.mds_iff]
    refine exists_congr fun i => ?_
    obtain ⟨attached, kept⟩ := there key same i
    rw [← and_assoc, ← and_assoc, attached]
    exact and_congr_right fun both => by rw [kept both]

theorem CacheServer.Good.mds_none (good : s.Good world) (missing : ¬s.Attaches hi) :
    (s.mds world).cbht (hi.puuid, hi.itbid) = none := by
  cases held : (s.mds world).cbht (hi.puuid, hi.itbid) with
  | none => rfl
  | some block =>
    obtain ⟨i, attached, key, -⟩ := good.mds_iff.mp held
    exact absurd ⟨i, attached, key⟩ missing

/-- A search in an attached block is a search in the map's block. -/
theorem hitBlock_refines (good : s.Good world) {i : Nat} (attached : s.cbht.Attached i)
    (key : s.cbht.key i = (hi.puuid, hi.itbid))
    (ran : hitBlock world s hi chance i = some (answer, after)) :
    ∃ hmi left, cbhtItbHit chance s.hmi (s.itb i) hi = some (returned answer, hmi, left) ∧
      after.mds world =
        ⟨hmi, Function.update (s.mds world).cbht (hi.puuid, hi.itbid) (some left)⟩ := by
  have goodAfter := hitBlock_good good ran
  obtain ⟨outcome, reply, hit⟩ := Option.bind_eq_some_iff.mp ran
  obtain ⟨⟨err, hmi, left⟩, searched, same⟩ := Option.map_eq_some_iff.mp hit
  obtain ⟨rfl, rfl⟩ := Prod.mk.inj same
  have errors := cbhtItbHitReply_err world.context chance s.hmi (s.itb i) hi getHmr
  rw [reply, searched] at errors
  refine ⟨hmi, left, ?_, good.mds_update goodAfter ⟨i, attached, key, ?_⟩ fun other different j =>
    ⟨Iff.rfl, fun both => ?_⟩⟩
  · rw [searched, returned_visible]
    exact congrArg (fun err => some (err, hmi, left)) (Option.some.inj errors).symm
  · exact Function.update_self _ _ _
  · refine Function.update_of_ne ?_ _ _
    rintro rfl
    exact different (both.2.symm.trans key)

/-- The block that a request comes to when none is attached. -/
theorem reachItb_missing (env : Environment) (good : s.Good world) (missing : ¬s.Attaches hi)
    (depth : env.itbDepth = world.itbDepth) (attachErr : chance.attachErr = miss.attachErr)
    (read : ∀ i, miss.read = .stored i ↔
      (if chance.readable then env.stored (hi.puuid, hi.itbid) else none) = some i) :
    reachItb env chance (s.mds world) hi =
      match missBlock world hi miss with
      | none => .error (-ENOENT)
      | some i => if miss.attachErr = 0 then .ok i else .error miss.attachErr := by
  unfold reachItb missBlock
  rw [good.mds_none missing, ← attachErr, depth]
  simp only
  cases outcome : miss.read with
  | stored i => rw [(read i).mp outcome]
  | failed err errno =>
    cases found : (if chance.readable then env.stored (hi.puuid, hi.itbid) else none) with
    | none =>
      simp only
      split <;> rfl
    | some i =>
      rw [(read i).mpr found] at outcome
      cases outcome

/-- A search that looks into the table or asks the storage server does what the search of the map
does. -/
theorem cbhtSearch_refines (env : Environment) (good : s.Good world)
    (depth : env.itbDepth = world.itbDepth) (attachErr : chance.attachErr = miss.attachErr)
    (read : ∀ i, miss.read = .stored i ↔
      (if chance.readable then env.stored (hi.puuid, hi.itbid) else none) = some i)
    (asks : s.Attaches hi ∨ AsksMdsl world s hi)
    (ran : cbhtSearch world s hi miss chance = some (answer, after)) :
    mdsCbhtSearch env chance (s.mds world) hi = some (returned answer, after.mds world) := by
  by_cases attaches : s.Attaches hi
  · obtain ⟨i, attached, key⟩ := attaches
    rw [cbhtSearch_attached good attached key] at ran
    obtain ⟨hmi, left, searched, same⟩ := hitBlock_refines good attached key ran
    have held := good.mds_iff.mpr ⟨i, attached, key, rfl⟩
    unfold mdsCbhtSearch reachItb
    rw [held]
    change (cbhtItbHit chance s.hmi (s.itb i) hi).map _ = _
    rw [searched, same]
    rfl
  · rw [(cbhtSearch_unattached good attaches miss chance).1 (asks.resolve_left attaches)] at ran
    unfold mdsCbhtSearch
    rw [reachItb_missing env good attaches depth attachErr read]
    unfold cbhtItbMiss at ran
    cases block : missBlock world hi miss with
    | none =>
      rw [block] at ran
      obtain ⟨rfl, rfl⟩ := Prod.mk.inj (Option.some.inj ran)
      rfl
    | some i =>
      rw [block] at ran
      simp only at ran ⊢
      by_cases attached : miss.attachErr = 0
      · rw [if_pos attached] at ran ⊢
        split at ran
        · cases ran
        · rename_i reply next ended
          obtain ⟨goodNext, err, oi, attaching, keys, key⟩ := good.inserted attaches ended
          simp only [err, true_or, if_true, oi, Option.getD_none] at ran
          obtain ⟨hmi, left, searched, same⟩ :=
            hitBlock_refines goodNext ((attaching s.blocks).mpr (Or.inr rfl)) key ran
          have content : (newBlock s hi i).itb s.blocks = i := Function.update_self _ _ _
          simp only [content] at searched
          -- the map with the new block, before the search in it
          have before : ({ newBlock s hi i with cbht := next } : CacheServer).mds world =
              ⟨s.hmi, Function.update (s.mds world).cbht (hi.puuid, hi.itbid) (some i)⟩ := by
            refine good.mds_update goodNext
              ⟨s.blocks, (attaching s.blocks).mpr (Or.inr rfl), key, content⟩
              fun other different j => ⟨⟨?_, ?_⟩, fun both => ?_⟩
            · rintro ⟨attachedNext, keyed⟩
              rcases (attaching j).mp attachedNext with earlier | rfl
              · exact ⟨earlier, (keys j earlier).symm.trans keyed⟩
              · exact absurd (keyed.symm.trans key) different
            · rintro ⟨earlier, keyed⟩
              exact ⟨(attaching j).mpr (Or.inl earlier), (keys j earlier).trans keyed⟩
            · exact Function.update_of_ne (Nat.ne_of_lt (good.bound j both.1)) _ _
          rw [same, before]
          change (cbhtItbHit chance s.hmi i hi).map _ = _
          rw [show cbhtItbHit chance s.hmi i hi = some (returned answer, hmi, left) from searched]
          simp only [Option.map_some, Function.update_idem]
      · rw [if_neg attached] at ran ⊢
        obtain ⟨rfl, rfl⟩ := Prod.mk.inj (Option.some.inj ran)
        rfl

end Map

/-! ### Transparency -/

/-- A search whose block is not in the table ends as it does with another table, with the same
answer or not at all, and attaches a new block only when the storage server does not have it. -/
structure SearchTransparent (world : CacheWorld) (s other : CacheServer) (hi : HvfsIndex)
    (miss : Miss) (chance : Chance) : Prop where
  same : (cbhtSearch world s hi miss chance).map Prod.fst =
    (cbhtSearch world other hi miss chance).map Prod.fst
  fresh : ∀ answer after, cbhtSearch world s hi miss chance = some (answer, after) →
    ∀ err errno, miss.read = .failed err errno → after.Attaches hi → err = -ENOENT

/-- When it does: both tables make it ask the storage server or neither does, unless it misses there
as well; with both tables it comes to a full bucket that cannot be split or with neither, unless the
search in the block does not return either; and a request that creates does not come to a read that
failed in another way. -/
structure CacheTransparent (world : CacheWorld) (s other : CacheServer) (hi : HvfsIndex)
    (miss : Miss) (chance : Chance) : Prop where
  asks : (AsksMdsl world s hi ↔ AsksMdsl world other hi) ∨ MissesToo world hi miss chance
  room : (AsksMdsl world s hi ∧ Stuck world s hi miss ↔
      AsksMdsl world other hi ∧ Stuck world other hi miss) ∨
    AsksMdsl world s hi ∧ AsksMdsl world other hi ∧ BlockEndless world s.hmi hi miss chance
  creates : ∀ err errno, miss.read = .failed err errno → AsksMdsl world s hi →
    (Flag.has hi.flag INDEX_CREATE || Flag.has hi.flag INDEX_SYMLINK) = true →
    miss.attachErr = 0 → RoomFor s.cbht (world.hvfsHash hi.puuid hi.itbid) → err = -ENOENT

section Transparent

variable {world : CacheWorld} {s other : CacheServer} {hi : HvfsIndex} {miss : Miss}
  {chance : Chance}

/-- What a search answers whose block is not in the table. -/
theorem cbhtSearch_fst (good : s.Good world) (missing : ¬s.Attaches hi) :
    (¬AsksMdsl world s hi →
        (cbhtSearch world s hi miss chance).map Prod.fst = some (.error (-ENOENT))) ∧
      (AsksMdsl world s hi → Stuck world s hi miss →
        (cbhtSearch world s hi miss chance).map Prod.fst = none) ∧
      (AsksMdsl world s hi → ¬Stuck world s hi miss →
        (cbhtSearch world s hi miss chance).map Prod.fst =
          missAnswer world s.hmi hi miss chance) := by
  obtain ⟨asked, gaveUp⟩ := cbhtSearch_unattached good missing miss chance
  refine ⟨fun other => ?_, fun asks stuck => ?_, fun asks free => ?_⟩
  · rw [gaveUp other]
    rfl
  · rw [asked asks, cbhtItbMiss_stuck good stuck]
    rfl
  · rw [asked asks, cbhtItbMiss_free good missing free]

/-- A search that asks the storage server answers like one that does not exactly if it ends and
misses there as well. -/
theorem cbhtSearch_misses_iff (good : s.Good world) (missing : ¬s.Attaches hi)
    (asks : AsksMdsl world s hi) :
    (cbhtSearch world s hi miss chance).map Prod.fst = some (.error (-ENOENT)) ↔
      MissesToo world hi miss chance ∧ ¬Stuck world s hi miss := by
  obtain ⟨-, stuckAnswer, freeAnswer⟩ :=
    @cbhtSearch_fst world s hi miss chance good missing
  by_cases stuck : Stuck world s hi miss
  · rw [stuckAnswer asks stuck]
    exact iff_of_false nofun fun both => both.2 stuck
  · rw [freeAnswer asks stuck, missAnswer_misses_iff, and_iff_left stuck]

/-- The answers of the two tables. -/
theorem cbhtSearch_same_iff (good : s.Good world) (goodOther : other.Good world)
    (missing : ¬s.Attaches hi) (missingOther : ¬other.Attaches hi) (sameHmi : s.hmi = other.hmi) :
    (cbhtSearch world s hi miss chance).map Prod.fst =
        (cbhtSearch world other hi miss chance).map Prod.fst ↔
      ((AsksMdsl world s hi ↔ AsksMdsl world other hi) ∨ MissesToo world hi miss chance) ∧
        ((AsksMdsl world s hi ∧ Stuck world s hi miss ↔
            AsksMdsl world other hi ∧ Stuck world other hi miss) ∨
          AsksMdsl world s hi ∧ AsksMdsl world other hi ∧
            BlockEndless world s.hmi hi miss chance) := by
  obtain ⟨gaveUp, stuckAnswer, freeAnswer⟩ := @cbhtSearch_fst world s hi miss chance good missing
  obtain ⟨gaveUpOther, stuckOther, freeOther⟩ :=
    @cbhtSearch_fst world other hi miss chance goodOther missingOther
  by_cases asks : AsksMdsl world s hi <;> by_cases asksOther : AsksMdsl world other hi
  · simp only [asks, asksOther, true_and, true_or]
    rw [← sameHmi] at freeOther
    have endless : ∀ {table}, Stuck world table hi miss →
        (missAnswer world s.hmi hi miss chance = none ↔ BlockEndless world s.hmi hi miss chance) :=
      fun stuck => missAnswer_none_iff stuck.2.1
    by_cases stuck : Stuck world s hi miss <;> by_cases stuckAlso : Stuck world other hi miss
    · rw [stuckAnswer asks stuck, stuckOther asksOther stuckAlso]
      exact iff_of_true rfl (Or.inl (iff_of_true stuck stuckAlso))
    · rw [stuckAnswer asks stuck, freeOther asksOther stuckAlso, eq_comm, endless stuck]
      exact (or_iff_right fun both => stuckAlso (both.mp stuck)).symm
    · rw [freeAnswer asks stuck, stuckOther asksOther stuckAlso, endless stuckAlso]
      exact (or_iff_right fun both => stuck (both.mpr stuckAlso)).symm
    · rw [freeAnswer asks stuck, freeOther asksOther stuckAlso]
      exact iff_of_true rfl (Or.inl (iff_of_false stuck stuckAlso))
  · rw [gaveUpOther asksOther, cbhtSearch_misses_iff good missing asks]
    simp only [asks, asksOther, true_and, false_and, iff_false, and_false, or_false,
      not_true_eq_false, false_or]
  · rw [gaveUp asks, eq_comm, cbhtSearch_misses_iff goodOther missingOther asksOther]
    simp only [asks, asksOther, true_and, false_and, false_iff, or_false, not_true_eq_false,
      false_or]
  · rw [gaveUp asks, gaveUpOther asksOther]
    simp only [asks, asksOther, false_and, true_or, and_self]

/-- After a failed read there is a block exactly for a request that creates, and it is empty. -/
theorem missBlock_failed {err : Int} {errno : IsErrno err}
    (read : miss.read = .failed err errno) :
    ((missBlock world hi miss).isSome ↔
        (Flag.has hi.flag INDEX_CREATE || Flag.has hi.flag INDEX_SYMLINK) = true) ∧
      ((missBlock world hi miss).isSome →
        missBlock world hi miss = some (emptyItb world.itbDepth)) := by
  rw [missBlock, read]
  simp only
  split
  · rename_i creates
    exact ⟨iff_of_true rfl creates, fun _ => rfl⟩
  · rename_i other
    exact ⟨iff_of_false nofun other, nofun⟩

/-- A search whose read failed attaches a block exactly if it creates one for which there is room. -/
theorem cbhtSearch_attaches_iff (good : s.Good world) (missing : ¬s.Attaches hi) {err : Int}
    {errno : IsErrno err} (read : miss.read = .failed err errno) :
    (∃ answer after, cbhtSearch world s hi miss chance = some (answer, after) ∧
        after.Attaches hi) ↔
      AsksMdsl world s hi ∧
        (Flag.has hi.flag INDEX_CREATE || Flag.has hi.flag INDEX_SYMLINK) = true ∧
        miss.attachErr = 0 ∧ RoomFor s.cbht (world.hvfsHash hi.puuid hi.itbid) := by
  obtain ⟨asked, gaveUp⟩ := cbhtSearch_unattached good missing miss chance
  obtain ⟨creates, new⟩ := @missBlock_failed world hi miss err errno read
  rw [← creates]
  constructor
  · rintro ⟨answer, after, ran, attached⟩
    by_cases asks : AsksMdsl world s hi
    · rw [asked asks] at ran
      obtain ⟨block, attaches⟩ := (cbhtItbMiss_answer good missing ran).2.mp attached
      refine ⟨asks, block, attaches, ?_⟩
      by_contra none
      rw [cbhtItbMiss_stuck good ⟨block, attaches, none⟩] at ran
      cases ran
    · rw [gaveUp asks] at ran
      obtain ⟨-, rfl⟩ := Prod.mk.inj (Option.some.inj ran)
      exact absurd attached missing
  · rintro ⟨asks, block, attaches, room⟩
    obtain ⟨outcome, reply⟩ := cbhtItbHitReply_empty world chance s.hmi hi
    have answered : (cbhtItbMiss world s hi miss chance).map Prod.fst = some (visible outcome) := by
      rw [cbhtItbMiss_free good missing fun stuck => stuck.2.2 room, missAnswer, new block]
      simp only [if_pos attaches, reply, Option.map_some]
    obtain ⟨⟨answer, after⟩, ran, -⟩ := Option.map_eq_some_iff.mp answered
    exact ⟨answer, after, (asked asks).trans ran,
      (cbhtItbMiss_answer good missing ran).2.mpr ⟨block, attaches⟩⟩

end Transparent

/-- A search whose block is in neither of two tables ends alike with both, and attaches a new block
only when the storage server does not have it, exactly in these cases. -/
theorem cache_transparent_iff (world : CacheWorld) (s other : CacheServer) (hi : HvfsIndex)
    (miss : Miss) (chance : Chance) (good : s.Good world) (goodOther : other.Good world)
    (missing : ¬s.Attaches hi) (missingOther : ¬other.Attaches hi) (sameHmi : s.hmi = other.hmi) :
    SearchTransparent world s other hi miss chance ↔
      CacheTransparent world s other hi miss chance := by
  have same := @cbhtSearch_same_iff world s other hi miss chance good goodOther missing
    missingOther sameHmi
  constructor
  · rintro ⟨alike, fresh⟩
    obtain ⟨asks, room⟩ := same.mp alike
    refine ⟨asks, room, fun err errno read asksHere creates attaches room => ?_⟩
    obtain ⟨answer, after, ran, attached⟩ :=
      (@cbhtSearch_attaches_iff world s hi miss chance good missing err errno read).mpr
        ⟨asksHere, creates, attaches, room⟩
    exact fresh answer after ran err errno read attached
  · rintro ⟨asks, room, creates⟩
    refine ⟨same.mpr ⟨asks, room⟩, fun answer after ran err errno read attached => ?_⟩
    obtain ⟨asksHere, creating, attaches, room⟩ :=
      (cbhtSearch_attaches_iff good missing read).mp ⟨answer, after, ran, attached⟩
    exact creates err errno read asksHere creating attaches room

/-! ### A server with small blocks -/

def smallWorld : CacheWorld where
  hvfsHash := fun puuid itbid => puuid + itbid
  itbDepth := 3
  context := zeroContext

/-- The server after `mds_cbht_init`. -/
def emptyCache : CacheServer where
  hmi := ⟨0, 0⟩
  cbht := mdsCbhtInit 4 (freeItbs fun _ => (0, 0))
  blocks := 0
  itb := fun _ => emptyItb 3

theorem emptyCache_good : emptyCache.Good smallWorld where
  cbht := (mdsCbhtInit_tabled smallWorld.hvfsHash 4 fun _ => (0, 0)).good
  bound := fun _ attached => absurd rfl attached

theorem emptyCache_missing (hi : HvfsIndex) : ¬emptyCache.Attaches hi :=
  fun ⟨_, attached, _⟩ => attached rfl

/-- A read that does not get through, and one that finds a block. -/
def unreachable : Miss := ⟨.failed (-ECHP) (by decide), 0⟩

def storedLetter : Miss where
  read := .stored (((itbSearch ⟨0, 0⟩ (emptyItb 3)
    (nameIndex (INDEX_CREATE ||| INDEX_BY_NAME))).map fun result => result.itb).getD (emptyItb 3))
  attachErr := 0

/-- The server with the block of another key, and the same counters. -/
def usedCache : CacheServer :=
  { ((cbhtSearch smallWorld emptyCache
      { nameIndex (INDEX_CREATE ||| INDEX_BY_NAME) with itbid := 1 } unreachable {}).map
        Prod.snd).getD emptyCache with
    hmi := ⟨0, 0⟩ }

/-- The storage server does not have the block. -/
def absentItb : Miss := ⟨.failed (-ENOENT) (by decide), 0⟩

theorem usedCache_ran : ∃ answer after, cbhtSearch smallWorld emptyCache
    { nameIndex (INDEX_CREATE ||| INDEX_BY_NAME) with itbid := 1 } unreachable {} =
      some (answer, after) ∧ usedCache.cbht = after.cbht ∧ usedCache.blocks = after.blocks :=
  ⟨_, _, rfl, rfl, rfl⟩

theorem usedCache_good : usedCache.Good smallWorld := by
  obtain ⟨_, after, ended, table, blocks⟩ := usedCache_ran
  have good := cbhtSearch_good emptyCache_good ended
  refine ⟨table ▸ good.cbht, fun i attached => ?_⟩
  rw [blocks]
  exact good.bound i (table ▸ attached)

theorem usedCache_missing (flag : U32) : ¬usedCache.Attaches (nameIndex flag) := by
  rintro ⟨i, attached⟩
  have found := usedCache_good.cbht.mdsCbhtFind_iff.mpr attached
  cases found.symm.trans (show mdsCbhtFind smallWorld.hvfsHash usedCache.cbht 0 0 = none from rfl)

/-- A CREATE of a block that the storage server does not have ends alike with an empty table and
with one that has a block in the bucket, and attaches a new block. -/
theorem cache_transparent_iff_create :
    SearchTransparent smallWorld emptyCache usedCache
      (nameIndex (INDEX_CREATE ||| INDEX_BY_NAME)) absentItb {} := by
  have room : RoomFor emptyCache.cbht 0 := by
    intro b search full
    obtain rfl : 0 = b := Option.some.inj search
    exact absurd full (show ¬(0 : Int) ≥ 32 by decide)
  have roomUsed : RoomFor usedCache.cbht 0 := by
    intro b search full
    obtain rfl : 0 = b := Option.some.inj search
    exact absurd full (show ¬(1 : Int) ≥ 32 by decide)
  refine (cache_transparent_iff smallWorld emptyCache usedCache _ absentItb {} emptyCache_good
    usedCache_good (emptyCache_missing _) (usedCache_missing _) rfl).mpr ⟨?_, ?_, ?_⟩
  · exact Or.inl (iff_of_true (Or.inr (by decide)) (Or.inr (by decide)))
  · exact Or.inl (iff_of_false (fun both => both.2.2.2 room) fun both => both.2.2.2 roomUsed)
  · intro err errno read _ _ _ _
    exact (ReadItb.failed.inj read).symm

/-- A LOOKUP of a name that only the storage server has fails with an empty table and succeeds
when the bucket holds a block of another key; and a CREATE whose read does not get through attaches
a new block. -/
theorem lookup_depends_on_bucket :
    ¬emptyCache.Attaches (nameIndex (INDEX_LOOKUP ||| INDEX_BY_NAME)) ∧
      ¬usedCache.Attaches (nameIndex (INDEX_LOOKUP ||| INDEX_BY_NAME)) ∧
      emptyCache.hmi = usedCache.hmi ∧
      (∃ after, cbhtSearch smallWorld emptyCache (nameIndex (INDEX_LOOKUP ||| INDEX_BY_NAME))
        storedLetter {} = some (.error (-ENOENT), after)) ∧
      (∃ reply after, cbhtSearch smallWorld usedCache
        (nameIndex (INDEX_LOOKUP ||| INDEX_BY_NAME)) storedLetter {} = some (.ok reply, after)) ∧
      ∃ reply after, cbhtSearch smallWorld emptyCache
        (nameIndex (INDEX_CREATE ||| INDEX_BY_NAME)) unreachable {} = some (.ok reply, after) ∧
          after.Attaches (nameIndex (INDEX_CREATE ||| INDEX_BY_NAME)) :=
  ⟨emptyCache_missing _, usedCache_missing _, rfl, ⟨_, rfl⟩, ⟨_, _, rfl⟩, _, _, rfl, 0, nofun, rfl⟩

end Hvfs
