/-
This file proves that a block refines a map from names to metadata, along every
sequence of CREATE, LOOKUP, UPDATE and UNLINK requests by name and of
asynchronous passes.

The relation between a block and a map goes through a partial function from
names to entries, the place of each bound name. The other entries of the block
are unlinked ones; they match no request, and a pass may take any of them off.
-/

import Hvfs.ItbNames
import Hvfs.Library.Transition

namespace Hvfs

open Transition

/-! ### Requests and passes -/

/-- The request flag of an operation. -/
def NameOp.bit : NameOp → U32
  | .create => INDEX_CREATE
  | .lookup => INDEX_LOOKUP
  | .update => INDEX_MDU_UPDATE
  | .unlink => INDEX_UNLINK

/-- The flags that choose the branch of `itb_search`. -/
def operationBits : List U32 :=
  [INDEX_LOOKUP, INDEX_CREATE, INDEX_MDU_UPDATE, INDEX_UNLINK, INDEX_LINK_ADD, INDEX_SYMLINK]

/-- The flags that change what a request by name matches or how it creates. -/
def variantBits : List U32 :=
  [INDEX_BY_UUID, INDEX_ITE_SHADOW, INDEX_CREATE_FORCE, INDEX_CREATE_LINK, INDEX_CREATE_COPY]

/-- A request for one operation by name. The hash is a function of the name. -/
structure NameRequest (hash : List U8 → U64) where
  op : NameOp
  hi : HvfsIndex
  byName : Flag.has hi.flag INDEX_BY_NAME = true
  plain : ∀ bit ∈ variantBits, Flag.has hi.flag bit = false
  only : ∀ bit ∈ operationBits, Flag.has hi.flag bit = decide (bit = op.bit)
  proper : ProperName hi.name
  hashed : hi.hash = hash hi.name
  columns : ∀ mu, hi.data.mu = some mu → ∀ column ∈ mu.columns, column.1 < 6
  payload : op = .update → hi.data.mu.isSome = true

/-- What happens to the block: a request, or a pass of `async_unlink_ite`. -/
inductive NameCall (hash : List U8 → U64)
  | request (request : NameRequest hash)
  | reclaim (limit : Nat) (count : UnlinkCount)

/-- One call on the block and the uuid counters. The answer `none` is that of a call that does not
return. -/
def nameStep {hash : List U8 → U64} (state : Hmi × Itb) :
    NameCall hash → Option NameAnswer × (Hmi × Itb)
  | .request request =>
    match itbSearch state.1 state.2 request.hi with
    | none => (none, state)
    | some result => (some ⟨result.err, result.data⟩, (result.hmi, result.itb))
  | .reclaim limit count =>
    match asyncUnlinkIte limit state.2 count with
    | none => (none, state)
    | some (i, _) => (some ⟨0, none⟩, (state.1, i))

/-- The same call on the map. A pass may reclaim any number of entries. -/
inductive NameStore.Step {hash : List U8 → U64} (capacity : Nat) :
    NameStore → NameCall hash → Option NameAnswer → NameStore → Prop
  | request (store : NameStore) (request : NameRequest hash) :
    Step capacity store (.request request)
      (some (store.run capacity request.op request.hi.name request.hi.data.mu).1)
      (store.run capacity request.op request.hi.name request.hi.data.mu).2
  | reclaim (store : NameStore) (limit : Nat) (count : UnlinkCount) (left : Nat)
    (fewer : left ≤ store.unreclaimed) :
    Step capacity store (.reclaim limit count) (some ⟨0, none⟩) { store with unreclaimed := left }

/-! ### The relation -/

/-- The block holds exactly the names of the map, each at its place. -/
structure Tracked (hash : List U8 → U64) (i : Itb) (chain : Nat → List Nat)
    (place : List U8 → Option Nat) (bound : Finmap fun _ : List U8 => Mdu) : Prop where
  shape : Shape i chain
  named : ∀ slot nr, Holds i chain slot nr →
    ∃ name, ProperName name ∧ (i.ite nr).name = name ++ [0] ∧ slot = hashSlot i (hash name)
  normal : ∀ slot nr, Holds i chain slot nr → Flag.has (i.ite nr).flag ITE_FLAG_NORMAL = true
  state : ∀ slot nr, Holds i chain slot nr →
    (i.ite nr).state = ITE_ACTIVE ∨ (i.ite nr).state = ITE_UNLINKED
  links : ∀ slot nr, Holds i chain slot nr → (i.ite nr).state = ITE_ACTIVE →
    (i.ite nr).mdu.nlink = 1
  placed : ∀ name nr, place name = some nr ↔ (i.ite nr).state = ITE_ACTIVE ∧
    (i.ite nr).name = name ++ [0] ∧ ∃ slot, Holds i chain slot nr
  lookup : ∀ name, bound.lookup name = (place name).map fun nr => (i.ite nr).mdu

/-- A block refines a map of the same capacity. -/
def Refines (hash : List U8 → U64) (capacity : Nat) (state : Hmi × Itb) (store : NameStore) :
    Prop :=
  state.2.total = capacity ∧ state.2.entries = store.load ∧
    ∃ chain place, Tracked hash state.2 chain place store.bound

/-! ### What a request finds -/

/-- A request by name matches the entries of that name that it may see. -/
theorem iteMatch_byName {hi : HvfsIndex} (byName : Flag.has hi.flag INDEX_BY_NAME = true)
    (notUuid : Flag.has hi.flag INDEX_BY_UUID = false)
    (notShadow : Flag.has hi.flag INDEX_ITE_SHADOW = false) (e : Ite) :
    iteMatch e hi = true ↔ e.state ≠ ITE_UNLINKED ∧
      (Flag.has hi.flag INDEX_ITE_ACTIVE = true → e.state = ITE_ACTIVE) ∧
      nameMatch e.name hi.name = true := by
  unfold iteMatch
  simp only [byName, notUuid, notShadow, Bool.false_and, Bool.false_eq_true, if_false, if_true,
    Bool.not_false, Bool.and_true, beq_iff_eq]
  by_cases unlinked : e.state = ITE_UNLINKED
  · simp [unlinked]
  · rw [if_neg unlinked]
    cases Flag.has hi.flag INDEX_ITE_ACTIVE with
    | false => simp [unlinked]
    | true =>
      by_cases active : e.state = ITE_ACTIVE
      · simp [active, show ITE_ACTIVE ≠ ITE_UNLINKED by decide]
      · simp [active]

section Finding

variable {hash : List U8 → U64} {i : Itb} {chain : Nat → List Nat}
  {place : List U8 → Option Nat} {bound : Finmap fun _ : List U8 => Mdu}

theorem NameRequest.variant (request : NameRequest hash) {bit : U32} (member : bit ∈ variantBits) :
    Flag.has request.hi.flag bit = false :=
  request.plain bit member

/-- At a cell of the block a request looks for the place of its name. -/
theorem Tracked.matchAt_iff (tracked : Tracked hash i chain place bound)
    (request : NameRequest hash) {slot cell : Nat} (member : cell ∈ chain slot) :
    i.matchAt request.hi cell = true ↔ place request.hi.name = some (i.index cell).entry := by
  have holds : Holds i chain slot (i.index cell).entry := ⟨cell, member, rfl⟩
  obtain ⟨name, proper, stored, _⟩ := tracked.named slot _ holds
  rw [Itb.matchAt, iteMatch_byName request.byName (request.variant (by decide))
    (request.variant (by decide)), tracked.placed, stored, nameMatch_stored proper request.proper,
    decide_eq_true_iff, List.append_left_inj]
  rcases tracked.state slot _ holds with active | unlinked
  · rw [active]
    exact ⟨fun both => ⟨rfl, both.2.2, slot, holds⟩,
      fun both => ⟨by decide, fun _ => rfl, both.2.1⟩⟩
  · rw [unlinked]
    exact ⟨fun both => absurd rfl both.1, fun both => absurd both.1 (by decide)⟩

/-- A request for a name without a place finds nothing. -/
theorem Tracked.find_none (tracked : Tracked hash i chain place bound)
    (request : NameRequest hash) (unbound : place request.hi.name = none) (slot : Nat) :
    (chain slot).find? (i.matchAt request.hi) = none := by
  rw [List.find?_eq_none]
  intro cell member hit
  rw [tracked.matchAt_iff request member, unbound] at hit
  cases hit

/-- A request for a bound name finds its place. -/
theorem Tracked.find_some (tracked : Tracked hash i chain place bound)
    (request : NameRequest hash) {nr : Nat} (known : place request.hi.name = some nr) :
    ∃ cell, (chain (hashSlot i request.hi.hash)).find? (i.matchAt request.hi) = some cell ∧
      (i.index cell).entry = nr ∧ cell ∈ chain (hashSlot i request.hi.hash) := by
  obtain ⟨_, stored, slot, holds⟩ := (tracked.placed _ _).mp known
  obtain ⟨name, proper, storedName, slotName⟩ := tracked.named slot nr holds
  have same : name = request.hi.name := List.append_cancel_right (storedName.symm.trans stored)
  obtain ⟨cell, member, entry⟩ := holds
  rw [slotName, same, ← request.hashed] at member
  rcases found : (chain (hashSlot i request.hi.hash)).find? (i.matchAt request.hi) with _ | other
  · have miss := List.find?_eq_none.mp found cell member
    rw [tracked.matchAt_iff request member, entry] at miss
    exact absurd known miss
  · have inside := List.mem_of_find?_eq_some found
    have hit := List.find?_some found
    rw [tracked.matchAt_iff request inside, known] at hit
    exact ⟨other, rfl, (Option.some.inj hit).symm, inside⟩

end Finding

/-! ### What a request changes -/

section Changing

variable {hash : List U8 → U64} {i : Itb} {chain : Nat → List Nat}
  {place : List U8 → Option Nat} {bound : Finmap fun _ : List U8 => Mdu}

/-- The entry that a new name gets is none of the entries before. -/
theorem Tracked.created (tracked : Tracked hash i chain place bound)
    (request : NameRequest hash) (create : request.op = .create)
    (unbound : place request.hi.name = none) (notFull : i.entries < (i.total : Int)) (hmi : Hmi) :
    ∃ hmiAfter after chainAfter placeAfter,
      itbAddIte hmi i request.hi =
        ⟨0, some (nameReply request.hi.name (Mdu.created request.hi.data.mu)), hmiAfter, after⟩ ∧
      after.adepth = i.adepth ∧ after.entries = i.entries + 1 ∧
      Tracked hash after chainAfter placeAfter
        (bound.insert request.hi.name (Mdu.created request.hi.data.mu)) := by
  obtain ⟨nr, after, chainAfter, result, clear, added, ite⟩ :=
    itbAddIte_added tracked.shape notFull hmi request.hi
  have link : Flag.has request.hi.flag INDEX_CREATE_LINK = false := request.variant (by decide)
  have symlink : Flag.has request.hi.flag INDEX_SYMLINK = false := by
    rw [request.only INDEX_SYMLINK (by decide), create]
    decide
  have flag : (iteCreate request.hi (newIte hmi request.hi).1).flag = newFlag request.hi :=
    iteCreate_flag _ _
  have mdu := iteCreate_mdu hmi (request.variant (by decide)) link symlink
  have stored : (iteCreate request.hi (newIte hmi request.hi).1).name = request.hi.name ++ [0] := by
    rw [iteCreate_name]
    exact copyName_proper request.proper
  have active : (iteCreate request.hi (newIte hmi request.hi).1).state = ITE_ACTIVE := by
    unfold Ite.state
    rw [flag]
    exact newFlag_active _
  generalize iteCreate request.hi (newIte hmi request.hi).1 = e at result flag mdu stored active ite
  have atNew : after.ite nr = e := by
    rw [ite, Function.update_self]
  have atOld : ∀ slot other, Holds i chain slot other → after.ite other = i.ite other := by
    intro slot other holds
    rw [ite, Function.update_of_ne]
    rintro rfl
    exact tracked.shape.not_holds_of_clear clear holds
  have sameSlot := fun word => hashSlot_congr added.adepth word
  refine ⟨(newIte hmi request.hi).2, after, chainAfter,
    Function.update place request.hi.name (some nr), ?_, added.adepth, added.entries, ?_⟩
  · rw [result, mduReply_stored stored, mdu]
  refine ⟨added.shape, ?_, ?_, ?_, ?_, ?_, ?_⟩
  · intro slot other holds
    simp only [sameSlot]
    rcases (added.holds slot other).mp holds with old | ⟨rfl, rfl⟩
    · rw [atOld slot other old]
      exact tracked.named slot other old
    · exact ⟨request.hi.name, request.proper, by rw [atNew, stored], by rw [← request.hashed]⟩
  · intro slot other holds
    rcases (added.holds slot other).mp holds with old | ⟨rfl, rfl⟩
    · rw [atOld slot other old]
      exact tracked.normal slot other old
    · rw [atNew, flag]
      exact newFlag_normal link
  · intro slot other holds
    rcases (added.holds slot other).mp holds with old | ⟨rfl, rfl⟩
    · rw [atOld slot other old]
      exact tracked.state slot other old
    · rw [atNew]
      exact Or.inl active
  · intro slot other holds
    rcases (added.holds slot other).mp holds with old | ⟨rfl, rfl⟩
    · rw [atOld slot other old]
      exact tracked.links slot other old
    · rw [atNew, mdu]
      intro _
      cases request.hi.data.mu <;> rfl
  · intro name other
    rcases eq_or_ne name request.hi.name with rfl | different
    · rw [Function.update_self]
      constructor
      · rintro same
        cases same
        rw [atNew]
        exact ⟨active, stored, _, (added.holds _ _).mpr (Or.inr ⟨rfl, rfl⟩)⟩
      · rintro ⟨activeOther, storedOther, slot, holds⟩
        rcases (added.holds slot other).mp holds with old | ⟨_, rfl⟩
        · rw [atOld slot other old] at activeOther storedOther
          have known := (tracked.placed _ _).mpr ⟨activeOther, storedOther, slot, old⟩
          rw [unbound] at known
          cases known
        · rfl
    · rw [Function.update_of_ne different, tracked.placed]
      constructor
      · rintro ⟨activeOther, storedOther, slot, old⟩
        rw [atOld slot other old]
        exact ⟨activeOther, storedOther, slot, (added.holds slot other).mpr (Or.inl old)⟩
      · rintro ⟨activeOther, storedOther, slot, holds⟩
        rcases (added.holds slot other).mp holds with old | ⟨_, rfl⟩
        · rw [atOld slot other old] at activeOther storedOther
          exact ⟨activeOther, storedOther, slot, old⟩
        · rw [atNew, stored] at storedOther
          exact absurd (List.append_cancel_right storedOther).symm different
  · intro name
    rcases eq_or_ne name request.hi.name with rfl | different
    · rw [Finmap.lookup_insert, Function.update_self, Option.map_some, atNew, mdu]
    · rw [Finmap.lookup_insert_of_ne _ different, Function.update_of_ne different, tracked.lookup]
      rcases known : place name with _ | other
      · rfl
      · obtain ⟨_, _, slot, old⟩ := (tracked.placed name other).mp known
        rw [Option.map_some, Option.map_some, atOld slot other old]

/-- An update of the entry at the place of a name. -/
theorem Tracked.updated (tracked : Tracked hash i chain place bound) {name : List U8} {nr : Nat}
    (known : place name = some nr) (mu : MduUpdate) :
    Tracked hash (i.setIte nr (muApply mu (i.ite nr))) chain place
      (bound.insert name ((i.ite nr).mdu.store mu)) := by
  have flag : ∀ other, ((i.setIte nr (muApply mu (i.ite nr))).ite other).flag =
      (i.ite other).flag := by
    intro other
    rw [setIte_ite, Function.update_apply]
    split_ifs with same
    · rw [same]
      rfl
    · rfl
  have stored : ∀ other, ((i.setIte nr (muApply mu (i.ite nr))).ite other).name =
      (i.ite other).name := by
    intro other
    rw [setIte_ite, Function.update_apply]
    split_ifs with same
    · rw [same]
      rfl
    · rfl
  have state : ∀ other, ((i.setIte nr (muApply mu (i.ite nr))).ite other).state =
      (i.ite other).state := by
    intro other
    unfold Ite.state
    rw [flag]
  refine ⟨tracked.shape.setIte nr _, ?_, ?_, ?_, ?_, ?_, ?_⟩
  · intro slot other holds
    rw [stored]
    exact tracked.named slot other holds
  · intro slot other holds
    rw [flag]
    exact tracked.normal slot other holds
  · intro slot other holds
    rw [state]
    exact tracked.state slot other holds
  · intro slot other holds active
    rw [state] at active
    rw [setIte_ite, Function.update_apply]
    split_ifs with same
    · rw [muApply_mdu, ← same]
      exact tracked.links slot other holds active
    · exact tracked.links slot other holds active
  · intro name other
    rw [state, stored]
    exact tracked.placed name other
  · intro other
    rcases eq_or_ne other name with rfl | different
    · rw [Finmap.lookup_insert, known, Option.map_some, setIte_ite, Function.update_self,
        muApply_mdu]
    · rw [Finmap.lookup_insert_of_ne _ different, tracked.lookup]
      rcases place' : place other with _ | nrOther
      · rfl
      · have apart : nrOther ≠ nr := by
          rintro rfl
          have first := (tracked.placed _ _).mp known
          have second := (tracked.placed _ _).mp place'
          exact different (List.append_cancel_right (second.2.1.symm.trans first.2.1))
        rw [Option.map_some, Option.map_some, setIte_ite, Function.update_of_ne apart]

/-- Marking the entry at the place of a name. Its only link goes, so it is UNLINKED now. -/
theorem Tracked.unlinked (tracked : Tracked hash i chain place bound) {name : List U8} {nr : Nat}
    (known : place name = some nr) (unlink : Bool) :
    Tracked hash { i.setIte nr (iteUnlinkNormal (i.ite nr)) with unlink } chain
      (Function.update place name none) (bound.erase name) := by
  obtain ⟨active, stored, slot, holds⟩ := (tracked.placed _ _).mp known
  have links := tracked.links slot nr holds active
  have atNr : (i.setIte nr (iteUnlinkNormal (i.ite nr))).ite nr = iteUnlinkNormal (i.ite nr) := by
    rw [setIte_ite, Function.update_self]
  have atOther : ∀ other, other ≠ nr →
      (i.setIte nr (iteUnlinkNormal (i.ite nr))).ite other = i.ite other := by
    intro other different
    rw [setIte_ite, Function.update_of_ne different]
  have dead : (iteUnlinkNormal (i.ite nr)).state = ITE_UNLINKED := by
    rw [iteUnlinkNormal_state, if_pos links]
  refine ⟨(tracked.shape.setIte nr _).setUnlink unlink, ?_, ?_, ?_, ?_, ?_, ?_⟩
  · intro head other holdsOther
    rcases eq_or_ne other nr with rfl | different
    · change ∃ name, _ ∧ ((i.setIte other _).ite other).name = _ ∧ _
      rw [atNr, iteUnlinkNormal_name]
      exact tracked.named head other holdsOther
    · change ∃ name, _ ∧ ((i.setIte nr _).ite other).name = _ ∧ _
      rw [atOther other different]
      exact tracked.named head other holdsOther
  · intro head other holdsOther
    rcases eq_or_ne other nr with rfl | different
    · change Flag.has ((i.setIte other _).ite other).flag _ = _
      rw [atNr]
      exact iteUnlinkNormal_normal _ (tracked.normal head other holdsOther)
    · change Flag.has ((i.setIte nr _).ite other).flag _ = _
      rw [atOther other different]
      exact tracked.normal head other holdsOther
  · intro head other holdsOther
    rcases eq_or_ne other nr with rfl | different
    · change ((i.setIte other _).ite other).state = _ ∨ ((i.setIte other _).ite other).state = _
      rw [atNr]
      exact Or.inr dead
    · change ((i.setIte nr _).ite other).state = _ ∨ ((i.setIte nr _).ite other).state = _
      rw [atOther other different]
      exact tracked.state head other holdsOther
  · intro head other holdsOther
    rcases eq_or_ne other nr with rfl | different
    · change ((i.setIte other _).ite other).state = _ → _
      rw [atNr, dead]
      exact fun absurdity => absurd absurdity (by decide)
    · change ((i.setIte nr _).ite other).state = _ → ((i.setIte nr _).ite other).mdu.nlink = _
      rw [atOther other different]
      exact tracked.links head other holdsOther
  · intro other nrOther
    change _ ↔ ((i.setIte nr _).ite nrOther).state = _ ∧ ((i.setIte nr _).ite nrOther).name = _ ∧
      ∃ slot, Holds i chain slot nrOther
    rcases eq_or_ne nrOther nr with rfl | apart
    · rw [atNr, dead]
      refine ⟨fun placed => ?_, fun absurdity => absurd absurdity.1 (by decide)⟩
      rcases eq_or_ne other name with rfl | different
      · rw [Function.update_self] at placed
        cases placed
      · rw [Function.update_of_ne different] at placed
        have again := ((tracked.placed _ _).mp placed).2.1
        exact absurd (List.append_cancel_right (again.symm.trans stored)) different
    · rw [atOther nrOther apart]
      rcases eq_or_ne other name with rfl | different
      · rw [Function.update_self]
        refine ⟨fun absurdity => (nomatch absurdity), fun placed => ?_⟩
        have again := known.symm.trans ((tracked.placed _ _).mpr placed)
        exact absurd (Option.some.inj again).symm apart
      · rw [Function.update_of_ne different]
        exact tracked.placed other nrOther
  · intro other
    change _ = Option.map (fun nrOther => ((i.setIte nr _).ite nrOther).mdu) _
    rcases eq_or_ne other name with rfl | different
    · rw [Finmap.lookup_erase, Function.update_self]
      rfl
    · rw [Finmap.lookup_erase_ne different, Function.update_of_ne different, tracked.lookup]
      rcases placed : place other with _ | nrOther
      · rfl
      · have apart : nrOther ≠ nr := by
          rintro rfl
          have again := ((tracked.placed _ _).mp placed).2.1
          exact different (List.append_cancel_right (again.symm.trans stored))
        rw [Option.map_some, Option.map_some, atOther nrOther apart]

/-- The bound names have different entries, so there are at least as many entries. -/
theorem Tracked.card_le (tracked : Tracked hash i chain place bound) :
    (bound.keys.card : Int) ≤ i.entries := by
  have named : bound.keys ⊆ i.held.image fun nr => (i.ite nr).name.dropLast := by
    intro name member
    rw [Finmap.mem_keys, Finmap.mem_iff] at member
    obtain ⟨mdu, known⟩ := member
    rw [tracked.lookup, Option.map_eq_some_iff] at known
    obtain ⟨nr, placed, _⟩ := known
    obtain ⟨_, stored, slot, holds⟩ := (tracked.placed name nr).mp placed
    refine Finset.mem_image.mpr ⟨nr, tracked.shape.chains.mem_held.mpr ⟨slot, holds⟩, ?_⟩
    rw [stored, List.dropLast_concat]
  have count := (Finset.card_le_card named).trans Finset.card_image_le
  rw [tracked.shape.usage.distinct] at count
  rw [tracked.shape.usage.entries]
  exact_mod_cast count

/-- An asynchronous pass. -/
theorem Tracked.passed (tracked : Tracked hash i chain place bound) {after : Itb}
    {chainAfter : Nat → List Nat} (passed : Passed i chain after chainAfter) :
    Tracked hash after chainAfter place bound := by
  have sameSlot := fun word => hashSlot_congr passed.adepth word
  refine ⟨passed.shape, ?_, ?_, ?_, ?_, ?_, ?_⟩
  · intro slot nr holds
    simp only [passed.ite, sameSlot]
    exact tracked.named slot nr (passed.held slot nr holds)
  · intro slot nr holds
    rw [passed.ite]
    exact tracked.normal slot nr (passed.held slot nr holds)
  · intro slot nr holds
    rw [passed.ite]
    exact tracked.state slot nr (passed.held slot nr holds)
  · intro slot nr holds
    rw [passed.ite]
    exact tracked.links slot nr (passed.held slot nr holds)
  · intro name nr
    rw [tracked.placed, passed.ite]
    refine and_congr_right fun active => and_congr_right fun _ => exists_congr fun slot => ?_
    refine ⟨fun holds => passed.kept slot nr holds ?_, passed.held slot nr⟩
    rw [active]
    decide
  · intro name
    rw [tracked.lookup, passed.ite]

end Changing

/-! ### One call -/

section Calls

variable {hash : List U8 → U64} {i : Itb} {chain : Nat → List Nat}
  {place : List U8 → Option Nat} {capacity : Nat} {store : NameStore}

theorem NameStore.step_of_run {request : NameRequest hash} {answer : NameAnswer}
    {next : NameStore}
    (ran : store.run capacity request.op request.hi.name request.hi.data.mu = (answer, next)) :
    NameStore.Step capacity store (.request request) (some answer) next := by
  have step : NameStore.Step capacity store (.request request) _ _ := .request store request
  rw [ran] at step
  exact step

theorem nameStep_of_search {hmi : Hmi} {request : NameRequest hash} {result : SearchResult}
    (search : itbSearch hmi i request.hi = some result) :
    nameStep (hmi, i) (.request request) =
      (some ⟨result.err, result.data⟩, (result.hmi, result.itb)) := by
  simp only [nameStep, search]

/-- Which branch of `itb_search` a found entry leads to. -/
theorem planFound_eq (request : NameRequest hash) (cell : Nat) :
    planFound i request.hi cell =
      match request.op with
      | .create => .done (-EEXIST) none
      | .lookup => .done 0 (some (mduReply (i.ite (i.index cell).entry)))
      | .update => .dirty (.update cell)
      | .unlink => .dirty (.unlink cell) := by
  have lookup := request.only INDEX_LOOKUP (by decide)
  have create := request.only INDEX_CREATE (by decide)
  have update := request.only INDEX_MDU_UPDATE (by decide)
  have unlink := request.only INDEX_UNLINK (by decide)
  have force : Flag.has request.hi.flag INDEX_CREATE_FORCE = false := request.variant (by decide)
  unfold planFound
  simp only [lookup, create, update, unlink, force]
  cases request.op <;> rfl

/-- A request for an unbound name is answered as the map answers it. -/
theorem Refines.unbound (full : i.total = capacity) (load : i.entries = store.load)
    (tracked : Tracked hash i chain place store.bound) (request : NameRequest hash)
    (unbound : place request.hi.name = none) (hmi : Hmi) :
    ∃ next, NameStore.Step capacity store (.request request)
        (nameStep (hmi, i) (.request request)).1 next ∧
      Refines hash capacity (nameStep (hmi, i) (.request request)).2 next := by
  have missing := tracked.find_none request unbound (hashSlot i request.hi.hash)
  have fresh : store.bound.lookup request.hi.name = none := by
    rw [tracked.lookup, unbound]
    rfl
  have related : Refines hash capacity (hmi, i) store := ⟨full, load, chain, place, tracked⟩
  by_cases create : request.op = .create
  · have flag : Flag.has request.hi.flag INDEX_CREATE = true := by
      rw [request.only INDEX_CREATE (by decide), create]
      decide
    have search := itbSearch_create tracked.shape hmi missing flag
    by_cases notFull : i.entries < (i.total : Int)
    · obtain ⟨hmiAfter, after, chainAfter, placeAfter, result, depth, entries, trackedAfter⟩ :=
        tracked.created request create unbound notFull hmi
      rw [result] at search
      rw [nameStep_of_search search]
      refine ⟨{ store with
          bound := store.bound.insert request.hi.name (Mdu.created request.hi.data.mu) },
        NameStore.step_of_run ?_, ?_, ?_, chainAfter, placeAfter, trackedAfter⟩
      · have room : store.load ≠ capacity := by omega
        simp only [NameStore.run, create, fresh, if_neg room]
      · change 2 ^ after.adepth = capacity
        rw [depth]
        exact full
      · change after.entries = _
        rw [entries, load]
        unfold NameStore.load
        rw [card_keys_insert_new fresh]
        simp only
        omega
    · rw [itbAddIte_full (not_lt.mp notFull)] at search
      rw [nameStep_of_search search]
      have most := tracked.shape.usage.entries
      have count := Finset.card_le_card (show i.held ⊆ Finset.range i.total from fun nr member =>
        Finset.mem_range.mpr (tracked.shape.usage.bound nr member))
      rw [Finset.card_range, tracked.shape.usage.distinct] at count
      have full' : store.load = capacity := by omega
      refine ⟨store, NameStore.step_of_run ?_, related⟩
      simp only [NameStore.run, create, fresh, if_pos full']
  · have flags : Flag.has request.hi.flag INDEX_CREATE = false ∧
        Flag.has request.hi.flag INDEX_SYMLINK = false := by
      rw [request.only INDEX_CREATE (by decide), request.only INDEX_SYMLINK (by decide)]
      revert create
      cases request.op <;> decide
    have search := itbSearch_missing tracked.shape hmi missing flags.1 flags.2
    rw [nameStep_of_search search]
    refine ⟨store, NameStore.step_of_run ?_, related⟩
    rcases op : request.op with _ | _ | _ | _
    · exact absurd op create
    all_goals simp only [NameStore.run, fresh]

/-- A request for a bound name is answered as the map answers it. -/
theorem Refines.known (full : i.total = capacity) (load : i.entries = store.load)
    (tracked : Tracked hash i chain place store.bound) (request : NameRequest hash) {nr : Nat}
    (known : place request.hi.name = some nr) (hmi : Hmi) :
    ∃ next, NameStore.Step capacity store (.request request)
        (nameStep (hmi, i) (.request request)).1 next ∧
      Refines hash capacity (nameStep (hmi, i) (.request request)).2 next := by
  obtain ⟨cell, found, entry, member⟩ := tracked.find_some request known
  obtain ⟨_, stored, slot, holds⟩ := (tracked.placed _ _).mp known
  have bound : store.bound.lookup request.hi.name = some (i.ite nr).mdu := by
    rw [tracked.lookup, known]
    rfl
  have related : Refines hash capacity (hmi, i) store := ⟨full, load, chain, place, tracked⟩
  have search := itbSearch_found tracked.shape hmi found
  rw [planFound_eq, entry, mduReply_stored stored] at search
  rcases op : request.op with _ | _ | _ | _ <;> rw [op] at search <;> simp only at search
  · rw [nameStep_of_search search]
    refine ⟨store, NameStore.step_of_run ?_, related⟩
    simp only [NameStore.run, op, bound]
  · rw [nameStep_of_search search]
    refine ⟨store, NameStore.step_of_run ?_, related⟩
    simp only [NameStore.run, op, bound]
  · obtain ⟨mu, payload⟩ := Option.isSome_iff_exists.mp (request.payload op)
    have flag : Flag.has request.hi.flag INDEX_MDU_UPDATE = true := by
      rw [request.only INDEX_MDU_UPDATE (by decide), op]
      decide
    have update : iteUpdate request.hi (i.ite nr) = muApply mu (i.ite nr) := by
      simp only [iteUpdate, flag, payload, if_true]
    have reply : mduReply (muApply mu (i.ite nr)) =
        nameReply request.hi.name ((i.ite nr).mdu.store mu) := by
      rw [← muApply_mdu]
      exact mduReply_stored stored
    simp only [itbAct, entry, update, setIte_ite, Function.update_self, reply] at search
    rw [nameStep_of_search search]
    refine ⟨{ store with bound := store.bound.insert request.hi.name ((i.ite nr).mdu.store mu) },
      NameStore.step_of_run ?_, full, ?_, chain, place, tracked.updated known mu⟩
    · simp only [NameStore.run, op, bound, payload, Option.map_some, Option.getD_some]
    · change i.entries = _
      rw [load]
      unfold NameStore.load
      rw [card_keys_insert_old bound]
  · have act : iteUnlink i cell (hashSlot i request.hi.hash) =
        some { i.setIte nr (iteUnlinkNormal (i.ite nr)) with
          unlink := i.unlink || (iteUnlinkNormal (i.ite nr)).mdu.nlink == 0 } := by
      have normal := tracked.normal slot nr holds
      simp only [iteUnlink, entry, normal, if_true]
    have reply : mduReply (iteUnlinkNormal (i.ite nr)) =
        nameReply request.hi.name { (i.ite nr).mdu with nlink := (i.ite nr).mdu.nlink - 1 } := by
      rw [← iteUnlinkNormal_mdu]
      exact mduReply_stored ((iteUnlinkNormal_name _).trans stored)
    simp only [itbAct, act] at search
    rw [setIte_index, entry, setIte_ite, Function.update_self, reply] at search
    rw [nameStep_of_search search]
    refine ⟨⟨store.bound.erase request.hi.name, store.unreclaimed + 1⟩,
      NameStore.step_of_run ?_, full, ?_, chain, _, tracked.unlinked known _⟩
    · simp only [NameStore.run, op, bound]
    · have count := card_keys_erase bound
      change i.entries = _
      rw [load]
      unfold NameStore.load
      simp only
      omega

/-- Each call on a block is matched by the same call on the map. -/
theorem nameStep_refines (state : Hmi × Itb) (call : NameCall hash)
    (related : Refines hash capacity state store) :
    ∃ next, NameStore.Step capacity store call (nameStep state call).1 next ∧
      Refines hash capacity (nameStep state call).2 next := by
  obtain ⟨hmi, i⟩ := state
  obtain ⟨full, load, chain, place, tracked⟩ := related
  cases call with
  | request request =>
    rcases placed : place request.hi.name with _ | nr
    · exact Refines.unbound full load tracked request placed hmi
    · exact Refines.known full load tracked request placed hmi
  | reclaim limit count =>
    obtain ⟨after, chainAfter, countAfter, result, passed⟩ :=
      asyncUnlinkIte_passed tracked.shape limit count
    have step : nameStep (hmi, i) (NameCall.reclaim limit count : NameCall hash) =
        (some ⟨0, none⟩, (hmi, after)) := by
      simp only [nameStep, result]
    have trackedAfter := tracked.passed passed
    have least := trackedAfter.card_le
    have most := passed.entries_le tracked.shape
    rw [step]
    refine ⟨{ store with unreclaimed := after.entries.toNat - store.bound.keys.card },
      .reclaim store limit count _ ?_,
      passed.total.trans full, ?_, chainAfter, place, trackedAfter⟩
    · unfold NameStore.load at load
      simp only at most load
      omega
    · unfold NameStore.load
      simp only at most least ⊢
      omega

end Calls

/-! ### Every run -/

/-- The empty block refines the empty map. -/
theorem emptyItb_refines (hash : List U8 → U64) (depth : Nat) (hmi : Hmi) :
    Refines hash (2 ^ depth) (hmi, emptyItb depth) ⟨∅, 0⟩ := by
  have none : ∀ slot nr, ¬Holds (emptyItb depth) (fun _ => []) slot nr := by
    rintro slot nr ⟨_, member, _⟩
    cases member
  refine ⟨rfl, rfl, fun _ => [], fun _ => Option.none, emptyItb_shape depth, ?_, ?_, ?_, ?_, ?_, ?_⟩
  · exact fun slot nr holds => absurd holds (none slot nr)
  · exact fun slot nr holds => absurd holds (none slot nr)
  · exact fun slot nr holds => absurd holds (none slot nr)
  · exact fun slot nr holds => absurd holds (none slot nr)
  · exact fun name nr => ⟨fun absurdity => (nomatch absurdity),
      fun ⟨_, _, slot, holds⟩ => absurd holds (none slot nr)⟩
  · exact fun name => Finmap.lookup_empty name

/-- Whatever requests by name and passes run on a block, it answers as a map of names does that
forgets unlinked entries at times of its own choosing. In particular every search returns. -/
theorem itb_refines_name_map (hash : List U8 → U64) (depth : Nat) (hmi : Hmi)
    (calls : List (NameCall hash)) :
    ∃ final, MayAnswer (NameStore.Step (2 ^ depth)) ⟨∅, 0⟩ calls
        (answers nameStep (hmi, emptyItb depth) calls).1 final ∧
      Refines hash (2 ^ depth) (answers nameStep (hmi, emptyItb depth) calls).2 final :=
  answers_refine (Refines hash (2 ^ depth))
    (fun state _ call related => nameStep_refines state call related) _ _ calls
    (emptyItb_refines hash depth hmi)

end Hvfs
