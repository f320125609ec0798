/-
This file determines when a successful search answers with the metadata of the
entry that it touched.

The answer is read at the cell that the search found, after the work is done. A
deleted head whose place a second entry has taken is then read as that other
entry, and a creation that is forced on an existing entry without anything to
write into it answers with nothing.
-/

import Hvfs.ItbCow

namespace Hvfs

/-! ### What a request touches -/

/-- The entry that a request looks up, changes or creates. -/
def touchedEntry (i : Itb) (chain : Nat → List Nat) (hi : HvfsIndex) : Nat :=
  match (chain (hashSlot i hi.hash)).find? (i.matchAt hi) with
  | some cell => (i.index cell).entry
  | none => findFirstZeroBit i.bitmap i.total

/-- A search that succeeds has written the metadata of the entry `touched`. -/
def Answers (touched : Nat) (result : SearchResult) : Prop :=
  result.err = 0 → result.data = some (mduReply (result.itb.ite touched))

/-- A creation that is forced, with no `mdu` and no link source to write into an existing entry. -/
structure ForcesNothing (hi : HvfsIndex) : Prop where
  lookup : Flag.has hi.flag INDEX_LOOKUP = false
  create : Flag.has hi.flag INDEX_CREATE = true
  force : Flag.has hi.flag INDEX_CREATE_FORCE = true
  bare : Flag.has hi.flag INDEX_CREATE_DIR = true ∨
    Flag.has hi.flag INDEX_CREATE_COPY = false ∧ Flag.has hi.flag INDEX_CREATE_LINK = false

/-- An entry that `ite_unlink` deletes at once. -/
structure DeletedAtOnce (e : Ite) : Prop where
  normal : Flag.has e.flag ITE_FLAG_NORMAL = false
  link : Flag.has e.flag ITE_FLAG_LS = true

/-- The requests that are answered with the entry they touch: none that finds an entry and forces
nothing on it, and none that deletes the head of a chain whose second entry has other metadata. -/
structure TouchesAnswered (i : Itb) (chain : Nat → List Nat) (hi : HvfsIndex) : Prop where
  writes : ∀ cell, Found i chain hi cell → ¬ForcesNothing hi
  stays : ∀ cell second rest, Found i chain hi cell → Unlinks hi →
    DeletedAtOnce (i.ite (i.index cell).entry) →
    chain (hashSlot i hi.hash) = cell :: second :: rest →
    mduReply (i.ite (i.index second).entry) = mduReply (i.ite (i.index cell).entry)

/-! ### The branches -/

section Branches

variable {i : Itb} {chain : Nat → List Nat} {hi : HvfsIndex} {cell slot : Nat}

theorem planFound_forces (forces : ForcesNothing hi) (cell : Nat) :
    planFound i hi cell = .done 0 none := by
  obtain ⟨lookup, create, force, bare⟩ := forces
  simp only [planFound, lookup, create, force, Bool.false_eq_true, if_false, if_true, Bool.not_true]
  rcases bare with dir | ⟨copy, link⟩
  · rw [if_pos dir]
  · simp only [copy, link, Bool.false_eq_true, if_false, ite_self]

/-- A plan that returns without an error has copied the entry, unless it forces nothing. -/
theorem planFound_done {err : Int} {data : Option MduReply}
    (plan : planFound i hi cell = .done err data) (writes : ¬ForcesNothing hi) (ok : err = 0) :
    data = some (mduReply (i.ite (i.index cell).entry)) := by
  subst ok
  have notForced : ∀ lookup create force bare, False := fun lookup create force bare =>
    writes ⟨lookup, create, force, bare⟩
  unfold planFound at plan
  simp only at plan
  split_ifs at plan with lookup create force dir copy link update unlink linkAdd source symlink
  · cases plan
    rfl
  · cases plan
  · exact (notForced (by simpa using lookup) create (by simpa using force) (Or.inl dir)).elim
  · exact (notForced (by simpa using lookup) create (by simpa using force)
      (Or.inr ⟨by simpa using copy, by simpa using link⟩)).elim
  all_goals cases plan

/-- What the cell of a deleted entry names afterwards: the second entry of the chain if it was the
head, else still the deleted one. -/
theorem itbDelIte_read (shape : Shape i chain) (member : cell ∈ chain slot) :
    ∃ after, itbDelIte i cell slot = some after ∧ after.ite = i.ite ∧
      ((∃ second rest, chain slot = cell :: second :: rest ∧
          (after.index cell).entry = (i.index second).entry) ∨
        ((∀ second rest, chain slot ≠ cell :: second :: rest) ∧
          (after.index cell).entry = (i.index cell).entry)) := by
  rcases itbDelIte_cases shape member with ⟨rfl, cells, result⟩ |
    ⟨front, prev, rest, cells, result⟩ | ⟨rfl, second, rest, cells, result⟩
  · refine ⟨_, result, rfl, Or.inr ⟨fun second rest more => ?_, ?_⟩⟩
    · rw [cells] at more
      cases more
    · rw [iteUnlinkInternal_index, Function.update_self]
  · refine ⟨_, result, unlinkBehind_ite prev cell, Or.inr ⟨fun second others more => ?_, ?_⟩⟩
    · obtain ⟨behind, start⟩ := shape.chains.exists_tail member
      rw [start] at more
      exact shape.head_ne cells (List.cons.inj more).1.symm
    · exact unlinkBehind_entries (shape.prev_ne cells) cell
  · refine ⟨_, result, unlinkBehind_ite cell second, Or.inl ⟨second, rest, cells, ?_⟩⟩
    have pairs : chain cell = [] ++ cell :: second :: rest := cells
    have different := shape.prev_ne pairs
    rw [unlinkBehind_entries different, swapEntries_index different.symm, if_pos rfl]

end Branches

/-! ### The answer -/

section Answer

variable {i : Itb} {chain : Nat → List Nat}

/-- A search that finds nothing answers with the entry that it creates. -/
theorem itbSearch_answers_missing (shape : Shape i chain) (hmi : Hmi) {hi : HvfsIndex}
    (missing : (chain (hashSlot i hi.hash)).find? (i.matchAt hi) = none) :
    ∃ result, itbSearch hmi i hi = some result ∧ Answers (touchedEntry i chain hi) result := by
  have touched : touchedEntry i chain hi = findFirstZeroBit i.bitmap i.total := by
    unfold touchedEntry
    rw [missing]
  rw [itbSearch_eq shape, missing]
  simp only
  split_ifs with creates
  · refine ⟨_, rfl, fun _ => ?_⟩
    by_cases notFull : i.entries < (i.total : Int)
    · obtain ⟨after, chainAfter, result, _, _, ite⟩ := itbAddIte_first shape notFull hmi hi rfl
      rw [result, touched]
      show some (mduReply _) = some (mduReply (after.ite _))
      rw [ite, Function.update_self]
    · rename_i ok
      rw [itbAddIte_full (not_lt.mp notFull)] at ok
      exact absurd ok (show (-ESPLIT : Int) ≠ 0 by decide)
  · exact ⟨_, rfl, fun ok => absurd ok (show (-ENOENT : Int) ≠ 0 by decide)⟩

/-- A search that finds an entry answers with it exactly in the cases of `TouchesAnswered`. -/
theorem itbSearch_answers_found (shape : Shape i chain) (hmi : Hmi) {hi : HvfsIndex} {cell : Nat}
    (found : Found i chain hi cell) :
    ∃ result, itbSearch hmi i hi = some result ∧
      (Answers (touchedEntry i chain hi) result ↔ TouchesAnswered i chain hi) := by
  have touched : touchedEntry i chain hi = (i.index cell).entry := by
    unfold touchedEntry
    rw [show (chain (hashSlot i hi.hash)).find? (i.matchAt hi) = some cell from found]
  have only : ∀ other, Found i chain hi other → other = cell := fun other there =>
    Option.some.inj (there.symm.trans found)
  rw [touched]
  by_cases forces : ForcesNothing hi
  · rw [itbSearch_found shape hmi found, planFound_forces forces]
    refine ⟨_, rfl, fun answers => ?_, fun condition => absurd forces (condition.writes cell found)⟩
    cases answers rfl
  have writes : ∀ other, Found i chain hi other → ¬ForcesNothing hi := fun _ _ => forces
  by_cases unlinks : Unlinks hi
  · rw [itbSearch_found shape hmi found, planFound_unlinks unlinks]
    simp only [itbAct]
    by_cases deleted : DeletedAtOnce (i.ite (i.index cell).entry)
    · obtain ⟨after, result, ite, read⟩ := itbDelIte_read shape (Found.member found)
      have removed : iteUnlink i cell (hashSlot i hi.hash) = some after := by
        simp only [iteUnlink, deleted.normal, deleted.link, if_true, Bool.false_eq_true, if_false]
        exact result
      rw [removed]
      refine ⟨_, rfl, fun answers => ⟨writes, ?_⟩, fun condition ok => ?_⟩
      · intro other second rest there _ _ cells
        obtain rfl := only other there
        have same := Option.some.inj (answers rfl)
        rcases read with ⟨next, behind, split, named⟩ | ⟨sole, _⟩
        · rw [cells] at split
          cases split
          rw [← ite, ← named]
          exact same
        · exact absurd cells (sole second rest)
      · refine congrArg some ?_
        show mduReply (after.ite (after.index cell).entry) = mduReply (after.ite _)
        rcases read with ⟨second, rest, cells, named⟩ | ⟨_, named⟩
        · rw [named, ite]
          exact condition.stays cell second rest found unlinks deleted cells
        · rw [named]
    · have stays : TouchesAnswered i chain hi := by
        refine ⟨writes, fun other second rest there _ gone => ?_⟩
        obtain rfl := only other there
        exact absurd gone deleted
      have kept : ∃ after, iteUnlink i cell (hashSlot i hi.hash) = some after ∧
          after.index = i.index := by
        unfold iteUnlink
        by_cases normal : Flag.has (i.ite (i.index cell).entry).flag ITE_FLAG_NORMAL = true
        · exact ⟨_, if_pos normal, rfl⟩
        · have link : ¬Flag.has (i.ite (i.index cell).entry).flag ITE_FLAG_LS = true :=
            fun link => deleted ⟨by simpa using normal, link⟩
          refine ⟨i, ?_, rfl⟩
          simp only [if_neg normal, if_neg link]
      obtain ⟨after, result, index⟩ := kept
      rw [result]
      refine ⟨_, rfl, fun _ => stays, fun _ _ => ?_⟩
      show some (mduReply (after.ite (after.index cell).entry)) = some (mduReply (after.ite _))
      rw [index]
  · have condition : TouchesAnswered i chain hi :=
      ⟨writes, fun _ _ _ _ absurdity => absurd absurdity unlinks⟩
    rw [itbSearch_found shape hmi found]
    rcases planFound_cases i hi cell with ⟨err, data, plan⟩ | plan | plan | ⟨_, absurdity⟩
    · rw [plan]
      exact ⟨_, rfl, fun _ => condition, fun _ => planFound_done plan forces⟩
    · rw [plan]
      exact ⟨_, rfl, fun _ => condition, fun _ _ => rfl⟩
    · rw [plan]
      exact ⟨_, rfl, fun _ => condition, fun _ _ => rfl⟩
    · exact absurd absurdity unlinks

/-- A copy finds the same entry. -/
theorem itbCow_touched (shape : Shape i chain) (memory : Nat → Ite) (hi : HvfsIndex) :
    touchedEntry (itbCow i memory) chain hi = touchedEntry i chain hi := by
  unfold touchedEntry
  rw [show hashSlot (itbCow i memory) hi.hash = hashSlot i hi.hash from rfl,
    itbCow_find shape memory hi]
  rfl

theorem itbCow_answered (shape : Shape i chain) (memory : Nat → Ite) (hi : HvfsIndex) :
    TouchesAnswered (itbCow i memory) chain hi ↔ TouchesAnswered i chain hi := by
  have found : ∀ cell, Found (itbCow i memory) chain hi cell ↔ Found i chain hi cell := by
    intro cell
    unfold Found
    rw [show hashSlot (itbCow i memory) hi.hash = hashSlot i hi.hash from rfl,
      itbCow_find shape memory hi]
  have same : ∀ cell ∈ chain (hashSlot i hi.hash),
      (itbCow i memory).ite ((itbCow i memory).index cell).entry = i.ite (i.index cell).entry :=
    fun cell member => itbCow_ite shape memory ⟨cell, member, rfl⟩
  have both : ∀ cell second rest, chain (hashSlot i hi.hash) = cell :: second :: rest →
      cell ∈ chain (hashSlot i hi.hash) ∧ second ∈ chain (hashSlot i hi.hash) := by
    intro cell second rest cells
    rw [cells]
    exact ⟨List.mem_cons_self, List.mem_cons_of_mem _ List.mem_cons_self⟩
  constructor
  · intro answered
    refine ⟨fun cell there => answered.writes cell ((found cell).mpr there), ?_⟩
    intro cell second rest there unlinks deleted cells
    obtain ⟨head, behind⟩ := both cell second rest cells
    rw [← same second behind, ← same cell head]
    refine answered.stays cell second rest ((found cell).mpr there) unlinks ?_ cells
    rw [same cell head]
    exact deleted
  · intro answered
    refine ⟨fun cell there => answered.writes cell ((found cell).mp there), ?_⟩
    intro cell second rest there unlinks deleted cells
    obtain ⟨head, behind⟩ := both cell second rest cells
    rw [same cell head] at deleted
    rw [same second behind, same cell head]
    exact answered.stays cell second rest ((found cell).mp there) unlinks deleted cells

theorem itbSearch_answers (shape : Shape i chain) (hmi : Hmi) (hi : HvfsIndex) :
    ∃ result, itbSearch hmi i hi = some result ∧
      (Answers (touchedEntry i chain hi) result ↔ TouchesAnswered i chain hi) := by
  rcases found : (chain (hashSlot i hi.hash)).find? (i.matchAt hi) with _ | cell
  · obtain ⟨result, ran, answers⟩ := itbSearch_answers_missing shape hmi found
    have none : ∀ cell, ¬Found i chain hi cell := by
      intro cell there
      rw [Found, found] at there
      cases there
    refine ⟨result, ran, fun _ => ⟨fun cell there => absurd there (none cell), ?_⟩,
      fun _ => answers⟩
    exact fun cell _ _ there => absurd there (none cell)
  · exact itbSearch_answers_found shape hmi found

/-- A search of any block, with or without a copy on the way, returns; if it succeeds it has written
the metadata of the entry that it touched exactly if it found none, or does not force nothing on it
and does not delete it from the head of a chain in front of an entry with other metadata. -/
theorem itb_search_answers (shape : Shape i chain) (hmi : Hmi) (hi : HvfsIndex)
    (memory : Option (Nat → Ite)) :
    ∃ result, itbSearchCow hmi i hi memory = some result ∧
      (Answers (touchedEntry i chain hi) result ↔ TouchesAnswered i chain hi) := by
  rw [itbSearchCow_eq]
  rcases searchBlock_cases i hi memory with same | ⟨copied, same⟩
  · rw [same]
    exact itbSearch_answers shape hmi hi
  · rw [same, ← itbCow_touched shape copied hi, ← itbCow_answered shape copied hi]
    exact itbSearch_answers (itbCow_shape shape copied) hmi hi

end Answer

/-- A block with a hard link at the head of a chain, in front of a file. -/
def linkedHeadBlock : Itb :=
  (itbAddIte ⟨0, 0⟩ (itbAddIte ⟨0, 0⟩ (emptyItb 3)
    (collidingIndex (INDEX_CREATE ||| INDEX_CREATE_LINK) 0 97)).itb
    (collidingIndex INDEX_CREATE 8 98)).itb

theorem linkedHeadBlock_shape : ∃ chain, Shape linkedHeadBlock chain := by
  obtain ⟨chain, shape⟩ := (itbAddIte_shape (emptyItb_shape 3) ⟨0, 0⟩
    (collidingIndex (INDEX_CREATE ||| INDEX_CREATE_LINK) 0 97)).2
  exact (itbAddIte_shape shape _ _).2

/-- The hard link is looked up by its name. -/
theorem itb_search_answers_lookup : ∃ chain result,
    itbSearchCow ⟨0, 0⟩ linkedHeadBlock
      (collidingIndex (INDEX_LOOKUP ||| INDEX_BY_NAME) 0 97) none = some result ∧
    (Answers (touchedEntry linkedHeadBlock chain
        (collidingIndex (INDEX_LOOKUP ||| INDEX_BY_NAME) 0 97)) result ↔
      TouchesAnswered linkedHeadBlock chain
        (collidingIndex (INDEX_LOOKUP ||| INDEX_BY_NAME) 0 97)) := by
  obtain ⟨chain, shape⟩ := linkedHeadBlock_shape
  exact ⟨chain, itb_search_answers shape _ _ _⟩

/-- The hard link is unlinked, and the answer is about the file behind it. -/
theorem itb_search_answers_other : ¬ ∀ (i : Itb) (chain : Nat → List Nat) (hmi : Hmi)
    (hi : HvfsIndex) (memory : Option (Nat → Ite)) (result : SearchResult), Shape i chain →
    itbSearchCow hmi i hi memory = some result → Answers (touchedEntry i chain hi) result := by
  intro always
  obtain ⟨chain, shape⟩ := linkedHeadBlock_shape
  obtain ⟨hi, hiEq⟩ : ∃ hi, hi = collidingIndex (INDEX_UNLINK ||| INDEX_BY_NAME) 0 97 := ⟨_, rfl⟩
  have walk := itbFind_eq shape hi (hashSlot_lt linkedHeadBlock hi.hash)
  have head : itbFind linkedHeadBlock hi (2 * linkedHeadBlock.total + 1)
      (hashSlot linkedHeadBlock hi.hash) = some (some 0) := by
    rw [hiEq]
    decide
  have touched : touchedEntry linkedHeadBlock chain hi = 0 := by
    unfold touchedEntry
    rw [← Option.some.inj (head.symm.trans walk)]
    decide
  obtain ⟨result, ran, _⟩ := itb_search_answers shape ⟨0, 0⟩ hi none
  have answers := always _ _ _ _ _ _ shape ran
  have wrong : (itbSearchCow ⟨0, 0⟩ linkedHeadBlock hi none).map (fun result =>
      decide (result.err = 0 ∧ result.data ≠ some (mduReply (result.itb.ite 0)))) = some true := by
    rw [hiEq]
    decide
  rw [ran, Option.map_some, Option.some_inj, decide_eq_true_iff] at wrong
  rw [touched] at answers
  exact wrong.2 (answers wrong.1)

end Hvfs
