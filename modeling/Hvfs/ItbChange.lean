/-
This file says once what a search can do to a block, for every flag word: it
leaves the block alone, adds an entry, writes the entry it found, marks it, or
takes it off its chain. Every invariant of blocks under searches is derived
from this list.
-/

import Hvfs.ItbNames

namespace Hvfs

/-! ### What a search changes -/

/-- The cell that a search finds. -/
def Found (i : Itb) (chain : Nat → List Nat) (hi : HvfsIndex) (cell : Nat) : Prop :=
  (chain (hashSlot i hi.hash)).find? (i.matchAt hi) = some cell

/-- The flags that lead a search which found an entry to `ite_unlink`. -/
structure Unlinks (hi : HvfsIndex) : Prop where
  lookup : Flag.has hi.flag INDEX_LOOKUP = false
  create : Flag.has hi.flag INDEX_CREATE = false
  update : Flag.has hi.flag INDEX_MDU_UPDATE = false
  unlink : Flag.has hi.flag INDEX_UNLINK = true

/-- What a search leaves of a block. -/
inductive Changed (hmi : Hmi) (i : Itb) (chain : Nat → List Nat) (hi : HvfsIndex) :
    Itb → (Nat → List Nat) → Prop
  | same : Changed hmi i chain hi i chain
  | added {nr : Nat} {after : Itb} {chainAfter : Nat → List Nat}
    (missing : (chain (hashSlot i hi.hash)).find? (i.matchAt hi) = none)
    (creates : Creates hi = true) (clear : i.bitmap nr = false)
    (added : Added i chain (hashSlot i hi.hash) nr after chainAfter)
    (ite : after.ite = Function.update i.ite nr (iteCreate hi (newIte hmi hi).1)) :
    Changed hmi i chain hi after chainAfter
  | written {cell : Nat} {e : Ite} (found : Found i chain hi cell)
    (name : e.name = (i.ite (i.index cell).entry).name)
    (flag : e.flag = (i.ite (i.index cell).entry).flag) :
    Changed hmi i chain hi (i.setIte (i.index cell).entry e) chain
  | marked {cell : Nat} (found : Found i chain hi cell) (unlinks : Unlinks hi)
    (normal : Flag.has (i.ite (i.index cell).entry).flag ITE_FLAG_NORMAL = true) (unlink : Bool) :
    Changed hmi i chain hi { i.setIte (i.index cell).entry
      (iteUnlinkNormal (i.ite (i.index cell).entry)) with unlink } chain
  | dropped {cell : Nat} {after : Itb} {chainAfter : Nat → List Nat}
    (found : Found i chain hi cell) (unlinks : Unlinks hi)
    (normal : Flag.has (i.ite (i.index cell).entry).flag ITE_FLAG_NORMAL = false)
    (link : Flag.has (i.ite (i.index cell).entry).flag ITE_FLAG_LS = true)
    (dropped : Dropped i chain (i.index cell).entry after chainAfter) :
    Changed hmi i chain hi after chainAfter

section Changes

variable {hmi : Hmi} {i : Itb} {chain : Nat → List Nat} {hi : HvfsIndex} {cell : Nat}

theorem Found.member (found : Found i chain hi cell) : cell ∈ chain (hashSlot i hi.hash) :=
  List.mem_of_find?_eq_some found

theorem Found.hit (found : Found i chain hi cell) :
    iteMatch (i.ite (i.index cell).entry) hi = true := by
  have hit : i.matchAt hi cell = true := List.find?_some found
  exact hit

theorem Found.holds (found : Found i chain hi cell) :
    Holds i chain (hashSlot i hi.hash) (i.index cell).entry :=
  ⟨cell, found.member, rfl⟩

theorem iteUpdate_name (hi : HvfsIndex) (e : Ite) : (iteUpdate hi e).name = e.name := by
  unfold iteUpdate
  split_ifs
  · cases hi.data.mu <;> rfl
  · rfl
  · rfl
  · rfl

theorem iteUpdate_flag (hi : HvfsIndex) (e : Ite) : (iteUpdate hi e).flag = e.flag := by
  unfold iteUpdate
  split_ifs
  · cases hi.data.mu <;> rfl
  · rfl
  · rfl
  · rfl

/-- The branches of a search that found an entry, by what they do to the block. -/
theorem planFound_cases (i : Itb) (hi : HvfsIndex) (cell : Nat) :
    (∃ err data, planFound i hi cell = .done err data) ∨
      planFound i hi cell = .dirty (.update cell) ∨
      planFound i hi cell = .dirty (.linkAdd cell) ∨
      (planFound i hi cell = .dirty (.unlink cell) ∧ Unlinks hi) := by
  unfold planFound
  simp only
  split_ifs with lookup create force dir copy link update unlink linkAdd source symlink
  all_goals first
    | exact Or.inl ⟨_, _, rfl⟩
    | exact Or.inr (Or.inl rfl)
    | exact Or.inr (Or.inr (Or.inl rfl))
    | exact Or.inr (Or.inr (Or.inr ⟨rfl, by simpa using lookup, by simpa using create,
        by simpa using update, unlink⟩))

theorem planFound_unlinks (unlinks : Unlinks hi) (cell : Nat) :
    planFound i hi cell = .dirty (.unlink cell) := by
  simp only [planFound, unlinks.lookup, unlinks.create, unlinks.update, unlinks.unlink,
    Bool.false_eq_true, if_false, if_true]

/-- Every search returns, and leaves one of the listed changes. -/
theorem itbSearch_changed (shape : Shape i chain) (hmi : Hmi) (hi : HvfsIndex) :
    ∃ result chainAfter, itbSearch hmi i hi = some result ∧
      Changed hmi i chain hi result.itb chainAfter := by
  rw [itbSearch_eq shape]
  rcases found : (chain (hashSlot i hi.hash)).find? (i.matchAt hi) with _ | cell
  · simp only
    by_cases creates : Creates hi = true
    · rw [if_pos creates]
      by_cases notFull : i.entries < (i.total : Int)
      · obtain ⟨nr, after, chainAfter, result, clear, added, ite⟩ :=
          itbAddIte_added shape notFull hmi hi
        refine ⟨_, chainAfter, rfl, ?_⟩
        rw [result]
        exact .added found creates clear added ite
      · rw [itbAddIte_full (not_lt.mp notFull)]
        exact ⟨_, chain, rfl, .same⟩
    · rw [if_neg creates]
      exact ⟨_, chain, rfl, .same⟩
  · simp only
    rcases planFound_cases i hi cell with ⟨err, data, plan⟩ | plan | plan | ⟨plan, unlinks⟩ <;>
      rw [plan] <;> simp only
    · exact ⟨_, chain, rfl, .same⟩
    · exact ⟨_, chain, rfl, .written found (iteUpdate_name hi _) (iteUpdate_flag hi _)⟩
    · exact ⟨_, chain, rfl, .written found rfl rfl⟩
    · unfold itbAct iteUnlink
      by_cases normal : Flag.has (i.ite (i.index cell).entry).flag ITE_FLAG_NORMAL = true
      · simp only [normal, if_true]
        exact ⟨_, chain, rfl, .marked found unlinks normal _⟩
      · by_cases link : Flag.has (i.ite (i.index cell).entry).flag ITE_FLAG_LS = true
        · obtain ⟨after, chainAfter, result, dropped⟩ :=
            itbDelIte_dropped shape (Found.member found)
          simp only [normal, link, if_true, result]
          exact ⟨_, chainAfter, rfl, .dropped found unlinks (by simpa using normal) link dropped⟩
        · simp only [normal, link]
          exact ⟨_, chain, rfl, .same⟩

/-- A search keeps the shape of the block. -/
theorem Changed.shape {after : Itb} {chainAfter : Nat → List Nat} (shape : Shape i chain)
    (changed : Changed hmi i chain hi after chainAfter) : Shape after chainAfter := by
  cases changed with
  | same => exact shape
  | added _ _ _ added _ => exact added.shape
  | written _ _ _ => exact shape.setIte _ _
  | marked _ _ _ unlink => exact (shape.setIte _ _).setUnlink unlink
  | dropped _ _ _ _ dropped => exact dropped.shape

theorem Changed.adepth {after : Itb} {chainAfter : Nat → List Nat}
    (changed : Changed hmi i chain hi after chainAfter) : after.adepth = i.adepth := by
  cases changed with
  | same => rfl
  | added _ _ _ added _ => exact added.adepth
  | written _ _ _ => rfl
  | marked _ _ _ _ => rfl
  | dropped _ _ _ _ dropped => exact dropped.adepth

end Changes

/-! ### Names on their chains -/

/-- Every entry carries a proper name and hangs on the chain of that name's hash. -/
def Named (hash : List U8 → U64) (i : Itb) (chain : Nat → List Nat) : Prop :=
  ∀ slot nr, Holds i chain slot nr →
    ∃ name, ProperName name ∧ (i.ite nr).name = name ++ [0] ∧ slot = hashSlot i (hash name)

section Names

variable {hash : List U8 → U64} {hmi : Hmi} {i : Itb} {chain : Nat → List Nat} {hi : HvfsIndex}

/-- A search for a proper name with its own hash keeps the names on their chains. -/
theorem Changed.named {after : Itb} {chainAfter : Nat → List Nat} (shape : Shape i chain)
    (named : Named hash i chain) (proper : ProperName hi.name) (hashed : hi.hash = hash hi.name)
    (changed : Changed hmi i chain hi after chainAfter) : Named hash after chainAfter := by
  have sameSlot := fun word => hashSlot_congr changed.adepth word
  intro slot nr holds
  simp only [sameSlot]
  cases changed with
  | same => exact named slot nr holds
  | @added nrNew _ _ _ _ clear added ite =>
    rcases (added.holds slot nr).mp holds with old | ⟨rfl, rfl⟩
    · rw [ite, Function.update_of_ne]
      · exact named slot nr old
      · rintro rfl
        exact shape.not_holds_of_clear clear old
    · refine ⟨hi.name, proper, ?_, by rw [← hashed]⟩
      rw [ite, Function.update_self, iteCreate_name]
      exact copyName_proper proper
  | @written cell e _ name _ =>
    rw [setIte_ite, Function.update_apply]
    split_ifs with same
    · rw [name, ← same]
      exact named slot nr holds
    · exact named slot nr holds
  | @marked cell _ _ _ _ =>
    change ∃ name, _ ∧ ((i.setIte _ _).ite nr).name = _ ∧ _
    rw [setIte_ite, Function.update_apply]
    split_ifs with same
    · rw [iteUnlinkNormal_name, ← same]
      exact named slot nr holds
    · exact named slot nr holds
  | dropped _ _ _ _ dropped =>
    rw [dropped.ite]
    exact named slot nr ((dropped.holds slot nr).mp holds).1

/-- A pass keeps the names on their chains. -/
theorem Passed.named {after : Itb} {chainAfter : Nat → List Nat} (named : Named hash i chain)
    (passed : Passed i chain after chainAfter) : Named hash after chainAfter := by
  have sameSlot := fun word => hashSlot_congr passed.adepth word
  intro slot nr holds
  simp only [sameSlot, passed.ite]
  exact named slot nr (passed.held slot nr holds)

end Names

end Hvfs
