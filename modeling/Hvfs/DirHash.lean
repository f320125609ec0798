/-
This file embeds the directory hash table of `mds/dh.c`: inserting an entry,
`mds_dh_search`, and `mds_dh_load`, which asks the GDT server for a directory that
is not in the table. A search returns what `mds_dh_load` makes of the answer, if it
returns at all, so the file ends with the answers for which that is right.

`mds_dh_load` searches the table for the GDT's own entry first. That search may
load as well, but the load of the GDT's entry searches no further, so the two
functions are tied together once.
-/

import Hvfs.Reply

namespace Hvfs

/-! ### The table -/

/-- `struct dhe`. -/
structure Dhe where
  uuid : U64
  puuid : U64
  salt : U64
  deriving DecidableEq, Repr

/-- `struct dh`; `slot` is `mds_dh_hash`. -/
structure Dh where
  slot : U64 → Nat
  ht : Nat → List Dhe

/-- What a function returns for an entry: an error made with `ERR_PTR`, or the entry. -/
inductive DhPtr
  | error (err : Int)
  | entry (e : Dhe)
  deriving DecidableEq, Repr

/-- `IS_ERR`. -/
def DhPtr.isErr : DhPtr → Bool
  | .error err => decide (IsErrno err)
  | .entry _ => false

/-- The loop of `mds_dh_search`. -/
def Dh.find (dh : Dh) (uuid : U64) : Option Dhe :=
  (dh.ht (dh.slot uuid)).find? fun e => e.uuid == uuid

/-- `hlist_add_head(&e->hlist, &rh->h)`. -/
def Dh.add (dh : Dh) (e : Dhe) : Dh :=
  { dh with ht := Function.update dh.ht (dh.slot e.uuid) (e :: dh.ht (dh.slot e.uuid)) }

/-- `mds_dh_insert`; `memory` says whether `xzalloc` succeeds. -/
def mdsDhInsert (dh : Dh) (hi : IndexHeader) (memory : Bool) : DhPtr × Dh :=
  let e : Dhe := ⟨hi.uuid, hi.puuid, hi.psalt⟩
  if memory then
    if (dh.find e.uuid).isSome then (.error (-EEXIST), dh) else (.entry e, dh.add e)
  else (.error (-ENOMEM), dh)

/-! ### Loading an entry -/

/-- How `xnet_send` ends: with an error, without a reply, or with a reply, whose data may be
missing. -/
inductive Answer
  | failed (err : Int) (nonzero : err ≠ 0)
  | unpaired
  | reply (hmr : Option MdReply)

/-- What happens to one load: `xnet_alloc_msg`, whether `mds_get_itbid` returns when it is called on
the GDT's entry, `ring_get_point`, the answer, and the memory for the new entry. -/
structure Exchange where
  msg : Bool
  itbid : Bool
  point : Bool
  answer : Answer
  memory : Bool

/-- `mds_dh_load` from `send_msg:` on; `e` is what the variable holds by then. `none` is the
assertion that there is a reply, or the step through the null pointer: `xm_data` is
`riov[0].iov_base`, and a message without data has no `riov`, so the test of `hmr` comes too
late. -/
def sendLoad (dh : Dh) (e : DhPtr) (exchange : Exchange) : Option (DhPtr × Dh) :=
  match exchange.answer with
  | .failed err _ => some (.error err, dh)
  | .unpaired => none
  | .reply none => none
  | .reply (some hmr) =>
    if hmr.err ≠ 0 then some (.error hmr.err.toInt, dh)
    else
      match hmrExtract hmr EXTRACT_HI with
      | none => some (e, dh)
      | some (_, offset) =>
        some (mdsDhInsert dh (IndexHeader.read (hmr.data.drop offset.toNat)) exchange.memory)

/-- `mds_dh_load`; `search` is its call of `mds_dh_search` for the GDT's own entry. `none` is an
assertion, a step through a pointer that leads nowhere, or a `mds_get_itbid` that never returns. -/
def mdsDhLoad (gdtUuid : U64) (search : Dh → Option (DhPtr × Dh)) (exchange : Exchange) (dh : Dh)
    (duuid : U64) : Option (DhPtr × Dh) :=
  if exchange.msg then
    if duuid = gdtUuid then sendLoad dh (.error (-ENOTEXIST)) exchange
    else
      (search dh).bind fun (e, dh) =>
        match e with
        | .error _ => none
        | .entry e =>
          if exchange.itbid then
            if exchange.point then sendLoad dh (.entry e) exchange else some (.error (-ECHP), dh)
          else none
  else some (.error (-ENOMEM), dh)

/-- `mds_dh_search` with the load that it makes when it finds nothing. -/
def searchOrLoad (load : Dh → U64 → Option (DhPtr × Dh)) (dh : Dh) (duuid : U64) :
    Option (DhPtr × Dh) :=
  match dh.find duuid with
  | some e => some (.entry e, dh)
  | none => load dh duuid

/-- The search for the GDT's own entry. -/
def searchGdt (gdtUuid : U64) (exchange : Exchange) (dh : Dh) : Option (DhPtr × Dh) :=
  searchOrLoad (mdsDhLoad gdtUuid (fun _ => none) exchange) dh gdtUuid

/-- `mds_dh_search`; a load of the GDT's entry has an exchange of its own. -/
def mdsDhSearch (gdtUuid : U64) (gdtLoad load : Exchange) (dh : Dh) (duuid : U64) :
    Option (DhPtr × Dh) :=
  searchOrLoad (mdsDhLoad gdtUuid (searchGdt gdtUuid gdtLoad) load) dh duuid

/-! ### What the table holds -/

section Table

variable {dh : Dh} {e : Dhe} {uuid : U64}

/-- An entry of the table is found under its uuid. -/
theorem Dh.find_some (found : dh.find uuid = some e) :
    e.uuid = uuid ∧ e ∈ dh.ht (dh.slot uuid) := by
  have key := List.find?_some (p := fun e : Dhe => e.uuid == uuid) found
  exact ⟨beq_iff_eq.mp key, List.mem_of_find?_eq_some found⟩

theorem Dh.find_add (dh : Dh) (e : Dhe) (uuid : U64) :
    (dh.add e).find uuid = if e.uuid = uuid then some e else dh.find uuid := by
  unfold Dh.find Dh.add
  simp only
  by_cases same : e.uuid = uuid
  · subst same
    rw [Function.update_self, if_pos rfl]
    exact List.find?_cons_of_pos (beq_self_eq_true e.uuid)
  · rw [if_neg same]
    by_cases together : dh.slot uuid = dh.slot e.uuid
    · rw [together, Function.update_self]
      exact List.find?_cons_of_neg (fun equal => same (beq_iff_eq.mp equal))
    · rw [Function.update_of_ne together]

theorem Dh.mem_add (dh : Dh) (e : Dhe) : e ∈ (dh.add e).ht ((dh.add e).slot e.uuid) := by
  have bucket : (dh.add e).ht ((dh.add e).slot e.uuid) = e :: dh.ht (dh.slot e.uuid) :=
    Function.update_self _ _ _
  rw [bucket]
  exact List.mem_cons_self

end Table

/-! ### The answers that are right -/

/-- A search for `duuid` returned an error pointer, or an entry of the table for this uuid. -/
def RightEntry (dh : Dh) (duuid : U64) (p : DhPtr) : Prop :=
  p.isErr = true ∨ ∃ e, p = .entry e ∧ e.uuid = duuid ∧ e ∈ dh.ht (dh.slot duuid)

/-- A search for `duuid` returned, and what it returned is right. -/
def ReturnsRight (duuid : U64) : Option (DhPtr × Dh) → Prop
  | none => False
  | some (p, after) => RightEntry after duuid p

/-- The uuid in the index of a reply. -/
def MdReply.named (hmr : MdReply) : Option U64 :=
  (hmrExtract hmr EXTRACT_HI).map fun (_, offset) =>
    (IndexHeader.read (hmr.data.drop offset.toNat)).uuid

/-- The uuid in the index of an answer that is no error. -/
def Answer.named : Answer → Option U64
  | .reply (some hmr) => if hmr.err = 0 then hmr.named else none
  | _ => none

/-- The load of the GDT's own entry makes an entry: the answer names a uuid that is not in the
table. -/
def GdtLoaded (gdtLoad : Exchange) (dh : Dh) : Prop :=
  gdtLoad.msg = true ∧ gdtLoad.memory = true ∧
    ∃ uuid, gdtLoad.answer.named = some uuid ∧ dh.find uuid = none

/-- The search for the GDT's own entry returns an entry. Without one a load for another directory
stops at an assertion, or takes an error that `IS_ERR` does not recognise for an entry. -/
def GdtHeld (gdtUuid : U64) (gdtLoad : Exchange) (dh : Dh) : Prop :=
  (dh.find gdtUuid).isSome ∨ GdtLoaded gdtLoad dh

/-- The uuid is in the table when the reply comes: it was there, or the load of the GDT's own entry
brought it. -/
def KnownBefore (gdtUuid : U64) (gdtLoad : Exchange) (dh : Dh) (duuid uuid : U64) : Prop :=
  (dh.find uuid).isSome ∨
    duuid ≠ gdtUuid ∧ dh.find gdtUuid = none ∧ gdtLoad.answer.named = some uuid

/-- The answers to a request for `duuid` that `mds_dh_load` treats right. An error has to be one
that `IS_ERR` recognises, and a reply needs data. A reply without an index is right when what the
variable holds is, `noIndex`. An index for another directory is only noticed when its entry cannot
be made. -/
def AnswerRight (load : Exchange) (duuid : U64) (noIndex : Prop) (known : U64 → Prop) : Prop :=
  match load.answer with
  | .failed err _ => IsErrno err
  | .unpaired => False
  | .reply none => False
  | .reply (some hmr) =>
    if hmr.err ≠ 0 then IsErrno hmr.err.toInt
    else
      match hmr.named with
      | none => noIndex
      | some uuid => uuid = duuid ∨ load.memory = false ∨ known uuid

/-- The loads after which a search for `duuid` is right. A reply without an index is only noticed
for the GDT's own entry, unless the load of that entry brought `duuid`. -/
def LoadsRight (gdtUuid : U64) (gdtLoad load : Exchange) (dh : Dh) (duuid : U64) : Prop :=
  (dh.find duuid).isSome ∨ load.msg = false ∨
    (duuid ≠ gdtUuid → GdtHeld gdtUuid gdtLoad dh ∧ load.itbid = true) ∧
      (duuid ≠ gdtUuid ∧ load.point = false ∨
        AnswerRight load duuid
          (duuid = gdtUuid ∨ dh.find gdtUuid = none ∧ gdtLoad.answer.named = some duuid)
          (KnownBefore gdtUuid gdtLoad dh duuid))

section Search

variable {gdtUuid : U64} {gdtLoad load : Exchange} {dh after : Dh} {duuid : U64} {p : DhPtr}

theorem answerRight_congr {noIndex other : Prop} {known certain : U64 → Prop}
    (sameIndex : noIndex ↔ other) (sameKnown : ∀ uuid, known uuid ↔ certain uuid) :
    AnswerRight load duuid noIndex known ↔ AnswerRight load duuid other certain := by
  obtain rfl := propext sameIndex
  obtain rfl := funext fun uuid => propext (sameKnown uuid)
  rfl

theorem rightEntry_entry {e : Dhe} : RightEntry dh duuid (.entry e) ↔
    e.uuid = duuid ∧ e ∈ dh.ht (dh.slot duuid) := by
  constructor
  · rintro (wrong | ⟨_, same, right⟩)
    · cases wrong
    · obtain rfl := DhPtr.entry.inj same
      exact right
  · exact fun right => Or.inr ⟨e, rfl, right⟩

theorem rightEntry_error {err : Int} : RightEntry dh duuid (.error err) ↔ IsErrno err := by
  constructor
  · rintro (error | ⟨_, same, -⟩)
    · exact of_decide_eq_true error
    · cases same
  · exact fun errno => Or.inl (decide_eq_true errno)

/-- An entry that was just made is right exactly if it has the uuid that was asked for. -/
theorem rightEntry_insert (hi : IndexHeader) (memory : Bool) :
    RightEntry (mdsDhInsert dh hi memory).2 duuid (mdsDhInsert dh hi memory).1 ↔
      hi.uuid = duuid ∨ memory = false ∨ (dh.find hi.uuid).isSome := by
  unfold mdsDhInsert
  cases memory with
  | false =>
    rw [if_neg Bool.false_ne_true, rightEntry_error]
    exact iff_of_true (by decide) (Or.inr (Or.inl rfl))
  | true =>
    rw [if_pos rfl]
    by_cases known : (dh.find hi.uuid).isSome = true
    · rw [if_pos known, rightEntry_error]
      exact iff_of_true (by decide) (Or.inr (Or.inr known))
    · rw [if_neg known, rightEntry_entry]
      have mem := dh.mem_add ⟨hi.uuid, hi.puuid, hi.psalt⟩
      constructor
      · exact fun right => Or.inl right.1
      · rintro (same | none | again)
        · exact ⟨same, same ▸ mem⟩
        · cases none
        · exact absurd again known

/-- From the request on, a load for `duuid` is right exactly for these answers. -/
theorem sendLoad_right {e : DhPtr} :
    ReturnsRight duuid (sendLoad dh e load) ↔
      AnswerRight load duuid (RightEntry dh duuid e) fun uuid => (dh.find uuid).isSome := by
  unfold AnswerRight sendLoad
  cases load.answer with
  | failed err nonzero => exact rightEntry_error
  | unpaired => exact Iff.rfl
  | reply hmr =>
    cases hmr with
    | none => exact Iff.rfl
    | some hmr =>
      simp only
      by_cases failed : hmr.err ≠ 0
      · rw [if_pos failed, if_pos failed]
        exact rightEntry_error
      · rw [if_neg failed, if_neg failed]
        unfold MdReply.named
        cases hmrExtract hmr EXTRACT_HI with
        | none => exact Iff.rfl
        | some place => exact rightEntry_insert _ _

/-- A load that has no entry yet returns one only for the uuid that the answer names. -/
theorem sendLoad_entry {err : Int} {e : Dhe}
    (ran : sendLoad dh (.error err) load = some (.entry e, after)) :
    load.answer.named = some e.uuid ∧ load.memory = true ∧ dh.find e.uuid = none ∧
      after = dh.add e := by
  unfold sendLoad at ran
  cases answer : load.answer with
  | failed err nonzero => rw [answer] at ran; cases ran
  | unpaired => rw [answer] at ran; cases ran
  | reply hmr =>
    rw [answer] at ran
    cases hmr with
    | none => cases ran
    | some hmr =>
      simp only at ran
      by_cases failed : hmr.err ≠ 0
      · rw [if_pos failed] at ran
        cases ran
      · rw [if_neg failed] at ran
        cases region : hmrExtract hmr EXTRACT_HI with
        | none => rw [region] at ran; cases ran
        | some place =>
          rw [region] at ran
          simp only [mdsDhInsert] at ran
          split at ran
          · rename_i memory
            split at ran
            · cases ran
            · rename_i unknown
              obtain ⟨made, rfl⟩ := Prod.mk.inj (Option.some.inj ran)
              obtain rfl := DhPtr.entry.inj made
              refine ⟨?_, memory, Option.not_isSome_iff_eq_none.mp unknown, rfl⟩
              rw [Answer.named, if_pos (not_ne_iff.mp failed), MdReply.named, region]
              rfl
          · cases ran

/-- The load of a uuid that is new makes its entry. -/
theorem sendLoad_new {uuid : U64} (e : DhPtr) (named : load.answer.named = some uuid)
    (memory : load.memory = true) (new : dh.find uuid = none) :
    ∃ made after, sendLoad dh e load = some (.entry made, after) := by
  unfold sendLoad
  cases answer : load.answer with
  | failed err nonzero => rw [answer] at named; cases named
  | unpaired => rw [answer] at named; cases named
  | reply hmr =>
    rw [answer] at named
    cases hmr with
    | none => cases named
    | some hmr =>
      simp only [Answer.named] at named ⊢
      by_cases failed : hmr.err = 0
      · rw [if_pos failed, MdReply.named] at named
        rw [if_neg (not_not_intro failed)]
        obtain ⟨place, region, read⟩ := Option.map_eq_some_iff.mp named
        have unknown : ¬(dh.find uuid).isSome = true := by
          rw [new]
          exact Bool.false_ne_true
        rw [region]
        simp only [mdsDhInsert, if_pos memory, read, if_neg unknown]
        exact ⟨_, _, rfl⟩
      · rw [if_neg failed] at named
        cases named

/-- What the search for the GDT's own entry leaves, when it returns an entry: the entry of the
table, or one for the uuid that the answer named. -/
theorem searchGdt_entry {e : Dhe} {between : Dh}
    (ran : searchGdt gdtUuid gdtLoad dh = some (.entry e, between)) :
    (e.uuid = gdtUuid ∧ (dh.find gdtUuid).isSome ∧ between = dh) ∨
      (dh.find gdtUuid = none ∧ GdtLoaded gdtLoad dh ∧ gdtLoad.answer.named = some e.uuid ∧
        between = dh.add e) := by
  unfold searchGdt searchOrLoad at ran
  cases held : dh.find gdtUuid with
  | some own =>
    rw [held] at ran
    obtain ⟨same, rfl⟩ := Prod.mk.inj (Option.some.inj ran)
    obtain rfl := DhPtr.entry.inj same
    exact Or.inl ⟨(Dh.find_some held).1, rfl, rfl⟩
  | none =>
    refine Or.inr ⟨rfl, ?_⟩
    rw [held] at ran
    simp only [mdsDhLoad, if_true] at ran
    split at ran
    · rename_i msg
      obtain ⟨named, memory, new, left⟩ := sendLoad_entry ran
      exact ⟨⟨msg, memory, e.uuid, named, new⟩, named, left⟩
    · cases ran

/-- The search for the GDT's own entry returns an entry exactly if it has or gets one. -/
theorem searchGdt_iff :
    GdtHeld gdtUuid gdtLoad dh ↔
      ∃ e between, searchGdt gdtUuid gdtLoad dh = some (.entry e, between) := by
  constructor
  · intro held
    unfold searchGdt searchOrLoad
    cases own : dh.find gdtUuid with
    | some e => exact ⟨e, dh, rfl⟩
    | none =>
      rcases held with known | ⟨msg, memory, uuid, named, new⟩
      · rw [own] at known
        cases known
      · simp only [mdsDhLoad, if_true, if_pos msg]
        exact sendLoad_new _ named memory new
  · rintro ⟨e, between, ran⟩
    rcases searchGdt_entry ran with ⟨-, known, -⟩ | ⟨-, loaded, -⟩
    · exact Or.inl known
    · exact Or.inr loaded

/-- The entry that `mds_dh_load` holds when the request for `duuid` is sent is the GDT's own, or
what was loaded for it, and right only in the second case. -/
theorem searchGdt_right {e : Dhe} {between : Dh} (other : duuid ≠ gdtUuid)
    (ran : searchGdt gdtUuid gdtLoad dh = some (.entry e, between)) :
    RightEntry between duuid (.entry e) ↔
      dh.find gdtUuid = none ∧ gdtLoad.answer.named = some duuid := by
  rw [rightEntry_entry]
  rcases searchGdt_entry ran with ⟨own, held, rfl⟩ | ⟨missing, -, named, rfl⟩
  · refine iff_of_false (fun right => other (right.1.symm.trans own)) ?_
    rintro ⟨missing, -⟩
    rw [missing] at held
    cases held
  · rw [named]
    constructor
    · rintro ⟨same, -⟩
      exact ⟨missing, congrArg some same⟩
    · rintro ⟨-, same⟩
      obtain rfl := Option.some.inj same
      exact ⟨rfl, dh.mem_add e⟩

/-- The table when the request for `duuid` is sent knows the uuids it knew before and the one that
the load of the GDT's own entry brought. -/
theorem searchGdt_known {e : Dhe} {between : Dh} (other : duuid ≠ gdtUuid)
    (ran : searchGdt gdtUuid gdtLoad dh = some (.entry e, between)) (uuid : U64) :
    (between.find uuid).isSome ↔ KnownBefore gdtUuid gdtLoad dh duuid uuid := by
  unfold KnownBefore
  rcases searchGdt_entry ran with ⟨-, held, rfl⟩ | ⟨missing, -, named, rfl⟩
  · refine (or_iff_left ?_).symm
    rintro ⟨-, missing, -⟩
    rw [missing] at held
    cases held
  · rw [Dh.find_add, named]
    by_cases same : e.uuid = uuid
    · rw [if_pos same, same]
      exact iff_of_true rfl (Or.inr ⟨other, missing, rfl⟩)
    · rw [if_neg same]
      refine (or_iff_left ?_).symm
      rintro ⟨-, -, equal⟩
      exact same (Option.some.inj equal)

/-- A load for another directory that finds no entry for the GDT does not return. -/
theorem mdsDhLoad_unheld (msg : load.msg = true) (other : duuid ≠ gdtUuid)
    (unheld : ¬GdtHeld gdtUuid gdtLoad dh) :
    mdsDhLoad gdtUuid (searchGdt gdtUuid gdtLoad) load dh duuid = none := by
  unfold mdsDhLoad
  rw [if_pos msg, if_neg other]
  cases searched : searchGdt gdtUuid gdtLoad dh with
  | none => rfl
  | some result =>
    obtain ⟨e, between⟩ := result
    cases e with
    | error err => rfl
    | entry e => exact absurd (searchGdt_iff.mpr ⟨e, between, searched⟩) unheld

/-- A load for another directory that holds an entry for the GDT is right exactly for these
answers. -/
theorem mdsDhLoad_held {e : Dhe} {between : Dh} (msg : load.msg = true) (other : duuid ≠ gdtUuid)
    (searched : searchGdt gdtUuid gdtLoad dh = some (.entry e, between)) :
    ReturnsRight duuid (mdsDhLoad gdtUuid (searchGdt gdtUuid gdtLoad) load dh duuid) ↔
      load.itbid = true ∧ (load.point = false ∨
        AnswerRight load duuid (dh.find gdtUuid = none ∧ gdtLoad.answer.named = some duuid)
          (KnownBefore gdtUuid gdtLoad dh duuid)) := by
  unfold mdsDhLoad
  rw [if_pos msg, if_neg other, searched]
  simp only [Option.bind_some]
  cases load.itbid with
  | false =>
    rw [if_neg Bool.false_ne_true]
    exact iff_of_false id fun right => nomatch right.1
  | true =>
    rw [if_pos rfl, and_iff_right rfl]
    cases load.point with
    | false =>
      rw [if_neg Bool.false_ne_true]
      exact iff_of_true (rightEntry_error.mpr (by decide)) (Or.inl rfl)
    | true =>
      rw [if_pos rfl, sendLoad_right, or_iff_right nofun]
      exact answerRight_congr (searchGdt_right other searched) (searchGdt_known other searched)

/-- A search for a directory returns, and returns the right directory, exactly after these loads. -/
theorem dh_search_right_iff (gdtUuid : U64) (gdtLoad load : Exchange) (dh : Dh) (duuid : U64) :
    ReturnsRight duuid (mdsDhSearch gdtUuid gdtLoad load dh duuid) ↔
      LoadsRight gdtUuid gdtLoad load dh duuid := by
  unfold mdsDhSearch searchOrLoad
  cases held : dh.find duuid with
  | some e => exact iff_of_true (rightEntry_entry.mpr (Dh.find_some held)) (Or.inl (held ▸ rfl))
  | none =>
    have notHeld : ¬(dh.find duuid).isSome = true := by
      rw [held]
      exact Bool.false_ne_true
    unfold LoadsRight
    rw [or_iff_right notHeld]
    simp only
    cases msg : load.msg with
    | false =>
      unfold mdsDhLoad
      rw [msg, if_neg Bool.false_ne_true]
      exact iff_of_true (rightEntry_error.mpr (by decide)) (Or.inl rfl)
    | true =>
      rw [or_iff_right nofun]
      by_cases own : duuid = gdtUuid
      · unfold mdsDhLoad
        rw [if_pos msg, if_pos own, sendLoad_right,
          and_iff_right fun other => absurd own other, or_iff_right fun other => other.1 own]
        have noIndex : RightEntry dh duuid (.error (-ENOTEXIST)) := rightEntry_error.mpr (by decide)
        refine answerRight_congr (iff_of_true noIndex (Or.inl own)) fun uuid => ?_
        exact (or_iff_left fun other => other.1 own).symm
      · by_cases gdt : GdtHeld gdtUuid gdtLoad dh
        · obtain ⟨e, between, searched⟩ := searchGdt_iff.mp gdt
          rw [mdsDhLoad_held msg own searched, or_iff_right own]
          exact and_congr (by simp only [gdt, own, ne_eq, not_false_eq_true, true_and, forall_const])
            (by rw [and_iff_right own])
        · rw [mdsDhLoad_unheld msg own gdt]
          exact iff_of_false id fun right => gdt (right.1 own).1

end Search

/-! ### Searches that go wrong -/

/-- A table that holds only the entry of the GDT, whose uuid is 1. -/
def gdtOnly : Dh where
  slot := fun uuid => uuid.toNat % 1024
  ht := fun slot => if slot = 1 then [⟨1, 0, 0⟩] else []

/-- A load whose reply has the index of one directory. -/
def loadOf (uuid : U64) : Exchange where
  msg := true
  itbid := true
  point := true
  answer := .reply (some { getHmr with
    flag := MD_REPLY_WITH_HI
    len := sizeofHvfsIndex
    data := (⟨0, 0, uuid, 0, 0, 0, 0, 0⟩ : IndexHeader).bytes })
  memory := true

/-- A load whose reply has no data region. -/
def loadEmpty : Exchange := { loadOf 0 with answer := .reply (some getHmr) }

/-- A load whose reply has no data at all. -/
def loadNothing : Exchange := { loadOf 0 with answer := .reply none }

/-- A reply for the directory itself is right. -/
example : ReturnsRight 2 (mdsDhSearch 1 loadEmpty (loadOf 2) gdtOnly 2) :=
  rightEntry_entry.mpr ⟨rfl, List.mem_cons_self⟩

/-- A search for directory 2 returns directory 3 when the reply names that one, and the GDT's own
entry when the reply has no index. It does not return when the reply has no data, or when the GDT's
entry has to be loaded first and cannot be. -/
theorem other_directory_returned :
    (∃ after, mdsDhSearch 1 loadEmpty (loadOf 3) gdtOnly 2 = some (.entry ⟨3, 0, 0⟩, after) ∧
      ¬RightEntry after 2 (.entry ⟨3, 0, 0⟩)) ∧
    (∃ after, mdsDhSearch 1 loadEmpty loadEmpty gdtOnly 2 = some (.entry ⟨1, 0, 0⟩, after) ∧
      ¬RightEntry after 2 (.entry ⟨1, 0, 0⟩)) ∧
    mdsDhSearch 1 loadEmpty loadNothing gdtOnly 2 = none ∧
    mdsDhSearch 4 { loadOf 4 with msg := false } (loadOf 2) gdtOnly 2 = none := by
  refine ⟨⟨_, rfl, fun right => ?_⟩, ⟨_, rfl, fun right => ?_⟩, rfl, rfl⟩
  · exact absurd (rightEntry_entry.mp right).1 (by decide)
  · exact absurd (rightEntry_entry.mp right).1 (by decide)

end Hvfs
