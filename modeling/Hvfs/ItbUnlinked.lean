/-
This file settles when an unlinked name is gone.

An UNLINK by name marks the first entry of that name it may see. A normal entry
with further links goes into the state SHADOW, and `ite_match` hides from a
request only the UNLINKED entries, so such a name is still there for every
LOOKUP and CREATE. The file proves the exact condition under which the name
disappears, for every block that requests by name and passes can reach.
-/

import Hvfs.ItbChange
import Hvfs.Library.Transition

namespace Hvfs

open Transition

/-! ### Requests by name -/

/-- A request that names its entry and keeps to it; the hash is a function of the name. -/
structure ByName (hash : List U8 → U64) where
  hi : HvfsIndex
  byName : Flag.has hi.flag INDEX_BY_NAME = true
  notUuid : Flag.has hi.flag INDEX_BY_UUID = false
  proper : ProperName hi.name
  hashed : hi.hash = hash hi.name
  fits : hi.Fits

/-- A search by name, or a pass of `async_unlink_ite`. -/
inductive ByNameCall (hash : List U8 → U64)
  | request (request : ByName hash)
  | reclaim (limit : Nat) (count : UnlinkCount)

/-- The block and the uuid counters after a call. -/
def byNameStep {hash : List U8 → U64} (state : Hmi × Itb) :
    ByNameCall hash → Option (Hmi × Itb)
  | .request request =>
    (itbSearch state.1 state.2 request.hi).map fun result => (result.hmi, result.itb)
  | .reclaim limit count => (asyncUnlinkIte limit state.2 count).map fun pass => (state.1, pass.1)

/-- The call does not bring the name back: it does not create it, and it does not unlink an entry
of that name that is UNLINKED already. -/
def Spares {hash : List U8 → U64} (name : List U8) : ByNameCall hash → Prop
  | .request request => request.hi.name = name → Creates request.hi = false ∧
    ¬(Unlinks request.hi ∧ Flag.has request.hi.flag INDEX_ITE_SHADOW = true)
  | .reclaim _ _ => True

/-- A request with default access finds no entry of the name now: a LOOKUP does not find it and
a CREATE is not refused. -/
def Absent (hash : List U8 → U64) (state : Hmi × Itb) (name : List U8) : Prop :=
  ∀ probe : ByName hash, probe.hi.name = name →
    Flag.has probe.hi.flag INDEX_ITE_SHADOW = false →
    ∃ result, itbSearch state.1 state.2 probe.hi = some result ∧
      (Flag.has probe.hi.flag INDEX_LOOKUP = true → Creates probe.hi = false →
        result.err = -ENOENT) ∧
      (Flag.has probe.hi.flag INDEX_CREATE = true → result.err ≠ -EEXIST)

/-- The name stays absent until a call brings it back. -/
def StaysAbsent (hash : List U8 → U64) (state : Hmi × Itb) (name : List U8) : Prop :=
  ∀ calls : List (ByNameCall hash), (∀ call ∈ calls, Spares name call) →
    ∀ final, run byNameStep state calls = some final → Absent hash final name

/-! ### What a request may see -/

/-- A request by name with default access may see the entry. -/
def VisibleAs (e : Ite) (name : List U8) : Prop :=
  e.state ≠ ITE_UNLINKED ∧ nameMatch e.name name = true

/-- An unlink takes the last link of the entry: a normal entry with one link, or a link entry. -/
def LastLink (e : Ite) : Prop :=
  (Flag.has e.flag ITE_FLAG_NORMAL = true → e.mdu.nlink = 1) ∧
    (Flag.has e.flag ITE_FLAG_NORMAL = false → Flag.has e.flag ITE_FLAG_LS = true)

/-- The chain of the request has one visible entry of the name only, and it is on its last
link. -/
def OnlyLastLink (i : Itb) (hi : HvfsIndex) : Prop :=
  ∃ cell, OnChain i cell (hashSlot i hi.hash) ∧
    VisibleAs (i.ite (i.index cell).entry) hi.name ∧ LastLink (i.ite (i.index cell).entry) ∧
    ∀ other, OnChain i other (hashSlot i hi.hash) →
      VisibleAs (i.ite (i.index other).entry) hi.name → other = cell

/-- No visible entry of the block carries the name. -/
def Gone (i : Itb) (chain : Nat → List Nat) (name : List U8) : Prop :=
  ∀ slot nr, Holds i chain slot nr → (i.ite nr).state ≠ ITE_UNLINKED →
    (i.ite nr).name ≠ name ++ [0]

section Seeing

variable {hash : List U8 → U64} {hmi : Hmi} {i : Itb} {chain : Nat → List Nat}

theorem ByName.nameMatch_of_hit (request : ByName hash) {e : Ite}
    (hit : iteMatch e request.hi = true) : nameMatch e.name request.hi.name = true := by
  unfold iteMatch at hit
  simp only [request.byName, request.notUuid, Bool.false_eq_true, if_true, if_false] at hit
  split_ifs at hit
  exact hit

/-- Only a request for shadows matches an UNLINKED entry. -/
theorem shadow_of_hit {hi : HvfsIndex} {e : Ite} (hit : iteMatch e hi = true)
    (unlinked : e.state = ITE_UNLINKED) : Flag.has hi.flag INDEX_ITE_SHADOW = true := by
  by_contra none
  unfold iteMatch at hit
  simp only [unlinked, Bool.not_eq_true] at hit none
  simp only [none, Bool.false_and, Bool.false_eq_true, if_false, beq_self_eq_true, Bool.not_false,
    Bool.and_self, if_true] at hit
  split_ifs at hit

theorem ByName.visible_of_hit (request : ByName hash)
    (default : Flag.has request.hi.flag INDEX_ITE_SHADOW = false) {e : Ite}
    (hit : iteMatch e request.hi = true) : VisibleAs e request.hi.name := by
  refine ⟨fun unlinked => ?_, request.nameMatch_of_hit hit⟩
  rw [shadow_of_hit hit unlinked] at default
  cases default

/-- A visible match is a stored name. -/
theorem Named.stored_of_match (named : Named hash i chain) {slot nr : Nat} {name : List U8}
    (proper : ProperName name) (holds : Holds i chain slot nr)
    (matched : nameMatch (i.ite nr).name name = true) :
    (i.ite nr).name = name ++ [0] ∧ slot = hashSlot i (hash name) := by
  obtain ⟨other, properOther, stored, slotOf⟩ := named slot nr holds
  rw [stored, nameMatch_stored properOther proper, decide_eq_true_iff] at matched
  rw [← matched]
  exact ⟨stored, slotOf⟩

theorem nameMatch_of_stored {e : Ite} {name : List U8} (proper : ProperName name)
    (stored : e.name = name ++ [0]) : nameMatch e.name name = true := by
  rw [stored, nameMatch_stored proper proper]
  exact decide_eq_true rfl

end Seeing

/-! ### A name that is gone stays gone -/

section Staying

variable {hash : List U8 → U64} {hmi : Hmi} {i : Itb} {chain : Nat → List Nat} {name : List U8}

/-- A request that spares the name leaves it gone. -/
theorem Changed.gone {request : ByName hash} {after : Itb} {chainAfter : Nat → List Nat}
    (shape : Shape i chain) (named : Named hash i chain) (gone : Gone i chain name)
    (spares : Spares name (.request request))
    (changed : Changed hmi i chain request.hi after chainAfter) : Gone after chainAfter name := by
  intro slot nr holds visible
  cases changed with
  | same => exact gone slot nr holds visible
  | added _ creates clear added ite =>
    rcases (added.holds slot nr).mp holds with old | ⟨rfl, rfl⟩
    · have kept : after.ite nr = i.ite nr := by
        rw [ite, Function.update_of_ne]
        rintro rfl
        exact shape.not_holds_of_clear clear old
      rw [kept] at visible ⊢
      exact gone slot nr old visible
    · rw [ite, Function.update_self, iteCreate_name]
      change copyName [] request.hi.name ≠ _
      rw [copyName_proper request.proper]
      intro same
      have equal := List.append_cancel_right same
      rw [(spares equal).1] at creates
      cases creates
  | @written cell e _ nameSame flagSame =>
    rw [setIte_ite, Function.update_apply] at visible ⊢
    split_ifs at visible ⊢ with same
    · unfold Ite.state at visible
      rw [flagSame] at visible
      rw [nameSame, ← same]
      rw [← same] at visible
      exact gone slot nr holds visible
    · exact gone slot nr holds visible
  | @marked cell found unlinks _ _ =>
    change ((i.setIte _ _).ite nr).state ≠ _ at visible
    change ((i.setIte _ _).ite nr).name ≠ _
    rw [setIte_ite, Function.update_apply] at visible ⊢
    split_ifs at visible ⊢ with same
    · rw [iteUnlinkNormal_name]
      intro stored
      have unlinked : (i.ite (i.index cell).entry).state = ITE_UNLINKED := by
        by_contra seen
        exact gone _ _ found.holds seen stored
      have matched := request.nameMatch_of_hit found.hit
      have equal := (named.stored_of_match request.proper found.holds matched).1
      have names := List.append_cancel_right (equal.symm.trans stored)
      exact (spares names).2 ⟨unlinks, shadow_of_hit found.hit unlinked⟩
    · exact gone slot nr holds visible
  | dropped _ _ _ _ dropped =>
    rw [dropped.ite] at visible ⊢
    exact gone slot nr ((dropped.holds slot nr).mp holds).1 visible

theorem Passed.gone {after : Itb} {chainAfter : Nat → List Nat} (gone : Gone i chain name)
    (passed : Passed i chain after chainAfter) : Gone after chainAfter name := by
  intro slot nr holds
  rw [passed.ite]
  exact gone slot nr (passed.held slot nr holds)

/-- The blocks that requests by name and passes reach. -/
def ByNameState (hash : List U8 → U64) (state : Hmi × Itb) : Prop :=
  ∃ chain, Shape state.2 chain ∧ Named hash state.2 chain

theorem byNameStep_kept {state next : Hmi × Itb} {call : ByNameCall hash}
    (good : ByNameState hash state) (stepped : byNameStep state call = some next) :
    ByNameState hash next := by
  obtain ⟨chain, shape, named⟩ := good
  cases call with
  | request request =>
    obtain ⟨result, chainAfter, search, changed⟩ :=
      itbSearch_changed shape state.1 request.hi
    rw [byNameStep, search] at stepped
    cases stepped
    exact ⟨chainAfter, changed.shape shape,
      changed.named shape named request.proper request.hashed⟩
  | reclaim limit count =>
    obtain ⟨after, chainAfter, countAfter, pass, passed⟩ := asyncUnlinkIte_passed shape limit count
    rw [byNameStep, pass] at stepped
    cases stepped
    exact ⟨chainAfter, passed.shape, passed.named named⟩

theorem byNameState_of_run {depth : Nat} {hmi : Hmi} {calls : List (ByNameCall hash)}
    {state : Hmi × Itb} (reached : run byNameStep (hmi, emptyItb depth) calls = some state) :
    ByNameState hash state := by
  have initial : ByNameState hash (hmi, emptyItb depth) :=
    ⟨fun _ => [], emptyItb_shape depth, fun _ _ ⟨_, member, _⟩ => nomatch member⟩
  exact run_invariant (ByNameState hash)
    (fun state call next good stepped => byNameStep_kept good stepped) initial reached

/-- The blocks in which the name is gone. -/
def GoneState (hash : List U8 → U64) (name : List U8) (state : Hmi × Itb) : Prop :=
  ∃ chain, Shape state.2 chain ∧ Named hash state.2 chain ∧ Gone state.2 chain name

theorem byNameStep_gone {state next : Hmi × Itb} {call : ByNameCall hash}
    (good : GoneState hash name state) (spares : Spares name call)
    (stepped : byNameStep state call = some next) : GoneState hash name next := by
  obtain ⟨chain, shape, named, gone⟩ := good
  cases call with
  | request request =>
    obtain ⟨result, chainAfter, search, changed⟩ :=
      itbSearch_changed shape state.1 request.hi
    rw [byNameStep, search] at stepped
    cases stepped
    exact ⟨chainAfter, changed.shape shape,
      changed.named shape named request.proper request.hashed, changed.gone shape named gone spares⟩
  | reclaim limit count =>
    obtain ⟨after, chainAfter, countAfter, pass, passed⟩ := asyncUnlinkIte_passed shape limit count
    rw [byNameStep, pass] at stepped
    cases stepped
    exact ⟨chainAfter, passed.shape, passed.named named, passed.gone gone⟩

/-- A name that is gone is absent. -/
theorem GoneState.absent {state : Hmi × Itb} (good : GoneState hash name state) :
    Absent hash state name := by
  obtain ⟨chain, shape, named, gone⟩ := good
  intro probe same default
  have missing : (chain (hashSlot state.2 probe.hi.hash)).find?
    (state.2.matchAt probe.hi) = none := by
    rw [List.find?_eq_none]
    intro cell member hit
    have seen := probe.visible_of_hit default hit
    have holds : Holds state.2 chain (hashSlot state.2 probe.hi.hash)
      (state.2.index cell).entry := ⟨cell, member, rfl⟩
    have stored := (named.stored_of_match probe.proper holds seen.2).1
    rw [same] at stored
    exact gone _ _ holds seen.1 stored
  have search := itbSearch_eq shape state.1 probe.hi
  rw [missing] at search
  by_cases creates : Creates probe.hi = true
  · simp only [creates, if_true] at search
    refine ⟨_, search, fun _ absurdity => absurd absurdity (by rw [creates]; decide), fun _ => ?_⟩
    by_cases failed : (itbAddIte state.1 state.2 probe.hi).err = 0
    · rw [failed]
      decide
    · rw [itbAddIte_failed shape _ _ failed]
      change (-ESPLIT : Int) ≠ -EEXIST
      decide
  · simp only [creates] at search
    refine ⟨_, search, fun _ _ => rfl, fun create => absurd ?_ creates⟩
    unfold Creates
    rw [create, Bool.true_or]

theorem GoneState.staysAbsent {state : Hmi × Itb} (good : GoneState hash name state) :
    StaysAbsent hash state name := by
  intro calls spares final reached
  have kept : ∀ state call next, GoneState hash name state → Spares name call →
      byNameStep state call = some next → GoneState hash name next :=
    fun _ _ _ good spares stepped => byNameStep_gone good spares stepped
  exact (guarded_invariant _ kept good (guarded_of_forall spares) reached).absent

end Staying

/-! ### The unlink -/

/-- A request to unlink its name with default access. -/
structure UnlinkRequest (hash : List U8 → U64) extends ByName hash where
  unlinks : Unlinks hi
  noSymlink : Flag.has hi.flag INDEX_SYMLINK = false
  default : Flag.has hi.flag INDEX_ITE_SHADOW = false

section Unlinking

variable {hash : List U8 → U64} {hmi : Hmi} {i : Itb} {chain : Nat → List Nat}

/-- An unlink that succeeds found an entry and went through `ite_unlink`. -/
theorem UnlinkRequest.found (request : UnlinkRequest hash) (shape : Shape i chain)
    {result : SearchResult} (search : itbSearch hmi i request.hi = some result)
    (succeeded : result.err = 0) :
    ∃ cell, Found i chain request.hi cell ∧
      iteUnlink i cell (hashSlot i request.hi.hash) = some result.itb := by
  rw [itbSearch_eq shape] at search
  rcases found : (chain (hashSlot i request.hi.hash)).find? (i.matchAt request.hi) with _ | cell
  · rw [found] at search
    simp only [Creates, request.unlinks.create, request.noSymlink, Bool.or_self,
      Bool.false_eq_true, if_false] at search
    rw [← Option.some.inj search] at succeeded
    exact absurd succeeded (show (-ENOENT : Int) ≠ 0 by decide)
  · rw [found] at search
    simp only [planFound_unlinks request.unlinks, itbAct] at search
    rcases unlinked : iteUnlink i cell (hashSlot i request.hi.hash) with _ | after
    · rw [unlinked] at search
      cases search
    · rw [unlinked] at search
      cases search
      exact ⟨cell, found, unlinked⟩

/-- Unlinking the only visible entry of a name at its last link leaves no visible entry of it. -/
theorem UnlinkRequest.gone (request : UnlinkRequest hash) (shape : Shape i chain)
    (named : Named hash i chain) {result : SearchResult}
    (search : itbSearch hmi i request.hi = some result) (succeeded : result.err = 0)
    (only : OnlyLastLink i request.hi) :
    GoneState hash request.hi.name (result.hmi, result.itb) := by
  obtain ⟨found, foundHere, unlinked⟩ := request.found shape search succeeded
  obtain ⟨cell, onChain, _, ⟨lastNormal, lastLink⟩, sole⟩ := only
  have member := shape.chains.onChain_iff.mp onChain
  obtain rfl : found = cell := sole found (shape.chains.onChain_iff.mpr foundHere.member)
    (request.visible_of_hit request.default foundHere.hit)
  -- the other entries of the block do not show the name
  have others : ∀ slot nr, Holds i chain slot nr → nr ≠ (i.index found).entry →
      (i.ite nr).state ≠ ITE_UNLINKED → (i.ite nr).name ≠ request.hi.name ++ [0] := by
    intro slot nr holds different visible stored
    have matched := nameMatch_of_stored request.proper stored
    obtain ⟨_, rfl⟩ := named.stored_of_match request.proper holds matched
    obtain ⟨other, memberOther, rfl⟩ := holds
    rw [← request.hashed] at memberOther
    exact different (congrArg (fun cell => (i.index cell).entry)
      (sole other (shape.chains.onChain_iff.mpr memberOther) ⟨visible, matched⟩))
  unfold iteUnlink at unlinked
  by_cases normal : Flag.has (i.ite (i.index found).entry).flag ITE_FLAG_NORMAL = true
  · simp only [normal, if_true] at unlinked
    have after := Option.some.inj unlinked
    have changed : Changed hmi i chain request.hi result.itb chain := by
      rw [← after]
      exact .marked foundHere request.unlinks normal _
    refine ⟨chain, changed.shape shape,
      changed.named shape named request.proper request.hashed, ?_⟩
    intro slot nr holds
    change Holds result.itb chain slot nr at holds
    change (result.itb.ite nr).state ≠ _ → (result.itb.ite nr).name ≠ _
    rw [← after] at holds ⊢
    change ((i.setIte _ _).ite nr).state ≠ _ → ((i.setIte _ _).ite nr).name ≠ _
    rw [setIte_ite, Function.update_apply]
    split_ifs with same
    · rw [iteUnlinkNormal_state, if_pos (lastNormal normal)]
      exact fun absurdity => absurd rfl absurdity
    · exact others slot nr holds same
  · have link := lastLink (by simpa using normal)
    simp only [normal, link, if_true] at unlinked
    obtain ⟨after, chainAfter, deleted, dropped⟩ := itbDelIte_dropped shape foundHere.member
    have same : result.itb = after := Option.some.inj (unlinked.symm.trans deleted)
    have changed : Changed hmi i chain request.hi result.itb chainAfter := by
      rw [same]
      exact .dropped foundHere request.unlinks (by simpa using normal) link dropped
    refine ⟨chainAfter, changed.shape shape,
      changed.named shape named request.proper request.hashed, ?_⟩
    intro slot nr holds
    change Holds result.itb chainAfter slot nr at holds
    change (result.itb.ite nr).state ≠ _ → (result.itb.ite nr).name ≠ _
    rw [same] at holds ⊢
    rw [dropped.ite]
    obtain ⟨held, different⟩ := (dropped.holds slot nr).mp holds
    exact others slot nr held different

/-- The LOOKUP of a name. -/
def ByName.lookupRequest (request : ByName hash) : ByName hash where
  hi := { request.hi with flag := INDEX_LOOKUP ||| INDEX_BY_NAME }
  byName := show Flag.has (INDEX_LOOKUP ||| INDEX_BY_NAME) INDEX_BY_NAME = true by decide
  notUuid := show Flag.has (INDEX_LOOKUP ||| INDEX_BY_NAME) INDEX_BY_UUID = false by decide
  proper := request.proper
  hashed := request.hashed
  fits :=
    { name := request.fits.name
      columns := request.fits.columns
      copied := fun creates => absurd creates
        (show ¬(Flag.has (INDEX_LOOKUP ||| INDEX_BY_NAME) INDEX_CREATE ||
          Flag.has (INDEX_LOOKUP ||| INDEX_BY_NAME) INDEX_SYMLINK) = true by decide)
      updated := fun updates => absurd updates
        (show ¬Flag.has (INDEX_LOOKUP ||| INDEX_BY_NAME) INDEX_MDU_UPDATE = true by decide) }

/-- A name that a LOOKUP does not find has no visible entry on its chain. -/
theorem Absent.not_visible {state : Hmi × Itb} {chain : Nat → List Nat} {request : ByName hash}
    (absent : Absent hash state request.hi.name) (shape : Shape state.2 chain) {cell : Nat}
    (member : cell ∈ chain (hashSlot state.2 request.hi.hash)) :
    ¬VisibleAs (state.2.ite (state.2.index cell).entry) request.hi.name := by
  intro visible
  have lookupFlag : Flag.has request.lookupRequest.hi.flag INDEX_LOOKUP = true :=
    show Flag.has (INDEX_LOOKUP ||| INDEX_BY_NAME) INDEX_LOOKUP = true by decide
  have default : Flag.has request.lookupRequest.hi.flag INDEX_ITE_SHADOW = false :=
    show Flag.has (INDEX_LOOKUP ||| INDEX_BY_NAME) INDEX_ITE_SHADOW = false by decide
  have anyState : Flag.has request.lookupRequest.hi.flag INDEX_ITE_ACTIVE = false :=
    show Flag.has (INDEX_LOOKUP ||| INDEX_BY_NAME) INDEX_ITE_ACTIVE = false by decide
  have creates : Creates request.lookupRequest.hi = false :=
    show (Flag.has (INDEX_LOOKUP ||| INDEX_BY_NAME) INDEX_CREATE ||
      Flag.has (INDEX_LOOKUP ||| INDEX_BY_NAME) INDEX_SYMLINK) = false by decide
  obtain ⟨result, search, lookup, _⟩ := absent request.lookupRequest rfl default
  have missed := lookup lookupFlag creates
  have hit : state.2.matchAt request.lookupRequest.hi cell = true := by
    unfold Itb.matchAt iteMatch
    simp only [default, anyState, request.lookupRequest.byName, request.lookupRequest.notUuid,
      Bool.false_and, Bool.false_eq_true, if_false, if_true, Bool.not_false, Bool.and_true,
      beq_iff_eq, if_neg visible.1]
    exact visible.2
  rw [itbSearch_eq shape] at search
  rcases found : (chain (hashSlot state.2 request.lookupRequest.hi.hash)).find?
    (state.2.matchAt request.lookupRequest.hi) with _ | other
  · exact List.find?_eq_none.mp found cell member hit
  · rw [found] at search
    simp only [planFound, lookupFlag, if_true] at search
    rw [← Option.some.inj search] at missed
    exact absurd missed (show (0 : Int) ≠ -ENOENT by decide)

/-- If the name is absent after the unlink, the unlinked entry was the only visible one of its
name, at its last link. -/
theorem UnlinkRequest.only (request : UnlinkRequest hash) (shape : Shape i chain)
    {result : SearchResult} (search : itbSearch hmi i request.hi = some result)
    (succeeded : result.err = 0) (absent : Absent hash (result.hmi, result.itb) request.hi.name) :
    OnlyLastLink i request.hi := by
  obtain ⟨found, foundHere, unlinked⟩ := request.found shape search succeeded
  have visible := request.visible_of_hit request.default foundHere.hit
  have onChain := shape.chains.onChain_iff.mpr foundHere.member
  unfold iteUnlink at unlinked
  by_cases normal : Flag.has (i.ite (i.index found).entry).flag ITE_FLAG_NORMAL = true
  · simp only [normal, if_true] at unlinked
    have after := Option.some.inj unlinked
    have shapeAfter : Shape result.itb chain := by
      rw [← after]
      exact (shape.setIte _ _).setUnlink _
    have unseen : ∀ cell ∈ chain (hashSlot i request.hi.hash),
        ¬VisibleAs ((i.setIte (i.index found).entry
          (iteUnlinkNormal (i.ite (i.index found).entry))).ite (i.index cell).entry)
          request.hi.name := by
      intro cell member
      have there : cell ∈ chain (hashSlot result.itb request.hi.hash) := by
        rw [← after]
        exact member
      have gone := absent.not_visible shapeAfter there
      rw [← after] at gone
      exact gone
    refine ⟨found, onChain, visible, ⟨fun _ => ?_, fun link => ?_⟩,
      fun other onChainOther seen => ?_⟩
    · have hidden := unseen found foundHere.member
      rw [setIte_ite, Function.update_self] at hidden
      by_contra more
      refine hidden ⟨?_, ?_⟩
      · rw [iteUnlinkNormal_state, if_neg more]
        decide
      · rw [iteUnlinkNormal_name]
        exact visible.2
    · rw [normal] at link
      cases link
    · have memberOther := shape.chains.onChain_iff.mp onChainOther
      by_contra different
      have hidden := unseen other memberOther
      rw [setIte_ite, Function.update_of_ne] at hidden
      · exact hidden seen
      · exact fun same => different (shape.entry_inj memberOther foundHere.member same)
  · by_cases link : Flag.has (i.ite (i.index found).entry).flag ITE_FLAG_LS = true
    · simp only [normal, link, if_true] at unlinked
      obtain ⟨after, chainAfter, deleted, dropped⟩ := itbDelIte_dropped shape foundHere.member
      have same : result.itb = after := Option.some.inj (unlinked.symm.trans deleted)
      refine ⟨found, onChain, visible, ⟨fun absurdity => absurd absurdity normal, fun _ => link⟩,
        fun other onChainOther seen => ?_⟩
      have memberOther := shape.chains.onChain_iff.mp onChainOther
      by_contra different
      have apart : (i.index other).entry ≠ (i.index found).entry :=
        fun same => different (shape.entry_inj memberOther foundHere.member same)
      obtain ⟨cell, member, entry⟩ := (dropped.holds (hashSlot i request.hi.hash)
        (i.index other).entry).mpr ⟨⟨other, memberOther, rfl⟩, apart⟩
      rw [same] at absent
      have there : cell ∈ chainAfter (hashSlot after request.hi.hash) := by
        rw [hashSlot_congr dropped.adepth]
        exact member
      have hidden := absent.not_visible dropped.shape there
      rw [entry, dropped.ite] at hidden
      exact hidden seen
    · simp only [normal, link] at unlinked
      have same : i = result.itb := Option.some.inj unlinked
      rw [← same] at absent
      exact absurd visible (absent.not_visible shape foundHere.member)

/-- Along every run of requests by name and passes: a name that an UNLINK with default access
removed stays absent until a call brings it back, if and only if the UNLINK took the last link of
the only visible entry of that name. -/
theorem unlinked_name_absent_iff (depth : Nat) (hmi : Hmi) (calls : List (ByNameCall hash))
    (state : Hmi × Itb) (reached : run byNameStep (hmi, emptyItb depth) calls = some state)
    (request : UnlinkRequest hash) (result : SearchResult)
    (search : itbSearch state.1 state.2 request.hi = some result) (succeeded : result.err = 0) :
    StaysAbsent hash (result.hmi, result.itb) request.hi.name ↔
      OnlyLastLink state.2 request.hi := by
  obtain ⟨chain, shape, named⟩ := byNameState_of_run reached
  constructor
  · intro stays
    exact request.only shape search succeeded (stays [] (fun _ member => nomatch member) _ rfl)
  · intro only
    exact (request.gone shape named search succeeded only).staysAbsent

end Unlinking

/-! ### Two runs -/

/-- The requests of the runs below: one letter as the name, and one hash for all. -/
def letterIndex (flag : U32) (letter : U8) : HvfsIndex where
  flag := flag
  uuid := 0
  hash := 0
  itbid := 0
  puuid := 0
  data := ⟨0, none, {}, ⟨0, 0, 0⟩, 0⟩
  name := [letter]

def letterCreate : ByName fun _ => 0 where
  hi := letterIndex (INDEX_CREATE ||| INDEX_BY_NAME) 97
  byName := by decide
  notUuid := by decide
  proper := ⟨by decide, by decide⟩
  hashed := rfl
  fits := by decide

def letterLinkAdd : ByName fun _ => 0 where
  hi := letterIndex (INDEX_LINK_ADD ||| INDEX_BY_NAME) 97
  byName := by decide
  notUuid := by decide
  proper := ⟨by decide, by decide⟩
  hashed := rfl
  fits := by decide

def letterUnlink : UnlinkRequest fun _ => 0 where
  hi := letterIndex (INDEX_UNLINK ||| INDEX_BY_NAME) 97
  byName := by decide
  notUuid := by decide
  proper := ⟨by decide, by decide⟩
  hashed := rfl
  fits := by decide
  unlinks := ⟨by decide, by decide, by decide, by decide⟩
  noSymlink := by decide
  default := by decide

/-- A name with one link is gone after its UNLINK. -/
theorem unlinked_name_absent_iff_created :
    ∃ state result, run byNameStep (⟨0, 0⟩, emptyItb 3) [.request letterCreate] = some state ∧
      itbSearch state.1 state.2 letterUnlink.hi = some result ∧
      (StaysAbsent (fun _ => 0) (result.hmi, result.itb) letterUnlink.hi.name ↔
        OnlyLastLink state.2 letterUnlink.hi) :=
  ⟨_, _, rfl, rfl, unlinked_name_absent_iff 3 ⟨0, 0⟩ [.request letterCreate] _ rfl letterUnlink _
    rfl rfl⟩

/-- A name with two links is still found after its UNLINK, and cannot be created again. -/
theorem linked_name_not_absent :
    ∃ state result,
      run byNameStep (⟨0, 0⟩, emptyItb 3) [.request letterCreate, .request letterLinkAdd] =
        some state ∧
      itbSearch state.1 state.2 letterUnlink.hi = some result ∧ result.err = 0 ∧
      ((itbSearch result.hmi result.itb letterUnlink.lookupRequest.hi).map fun r => r.err) =
        some 0 ∧
      ((itbSearch result.hmi result.itb letterCreate.hi).map fun r => r.err) = some (-EEXIST) ∧
      ¬StaysAbsent (fun _ => 0) (result.hmi, result.itb) letterUnlink.hi.name := by
  refine ⟨_, _, rfl, rfl, rfl, by decide, ?_⟩
  refine (fun refused => ⟨refused, fun stays => ?_⟩) (by decide)
  obtain ⟨result, search, _, create⟩ :=
    stays [] (fun _ member => nomatch member) _ rfl letterCreate rfl (by decide)
  rw [search] at refused
  exact create (by decide) (Option.some.inj refused)

end Hvfs
