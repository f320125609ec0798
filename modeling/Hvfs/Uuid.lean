/-
This file verifies the allocation of uuids in `itb_add_ite`: which uuids a run
of creations gives out. The counter is a `long` of 32 bits, as the operand of
`xaddl` has to be, and it is extended with its sign when it becomes a uuid. From
the creation number `2 ^ 31` on the sign covers the bits of the server, and
after `2 ^ 32` creations the counter starts over.
-/

import Hvfs.ItbNames
import Hvfs.ItbRuns

namespace Hvfs

/-! ### The counter -/

def HVFS_MAX_UUID_PER_MDS : Nat := 0x7ffffffffff

/-- The `hmi` of a server that has just started. -/
def Hmi.start (uuidBase : U64) : Hmi := ⟨0, uuidBase⟩

/-- A counter that was incremented `count` times. -/
def counterAfter (count : Nat) : Long := BitVec.ofNat 32 count

theorem atomic64IncReturn_counterAfter (count : Nat) :
    atomic64IncReturn (counterAfter count) =
      (counterAfter (count + 1), counterAfter (count + 1)) := by
  have next : counterAfter count + 1 = counterAfter (count + 1) := by
    rw [counterAfter, counterAfter, BitVec.ofNat_add]
    rfl
  rw [atomic64IncReturn, atomic64AddReturn, next]

/-- The sign of the counter: it is set in the second half of each round. -/
theorem counterAfter_msb {count : Nat} (bound : count < 2 ^ 32) :
    (counterAfter count).msb = decide (2 ^ 31 ≤ count) := by
  rw [counterAfter, BitVec.msb_eq_decide, BitVec.toNat_ofNat, Nat.mod_eq_of_lt bound]

/-! ### One creation -/

/-- `ITE_IS_DIR`. -/
def iteIsDir (uuid : U64) : Bool := Flag.has uuid HVFS_UUID_HIGHEST_BIT

/-- The uuid of the creation number `number`, counted from 1 and without copies. -/
def uuidAt (uuidBase : U64) (number : Nat) (hi : HvfsIndex) : U64 :=
  let uuid := (counterAfter number).signExtend 64 ||| uuidBase
  if Flag.has hi.flag INDEX_CREATE_DIR then uuid ||| HVFS_UUID_HIGHEST_BIT else uuid

theorem newUuid_uuidAt (uuidBase : U64) (count : Nat) {hi : HvfsIndex}
    (copy : Flag.has hi.flag INDEX_CREATE_COPY = false) :
    newUuid ⟨counterAfter count, uuidBase⟩ hi =
      (uuidAt uuidBase (count + 1) hi, ⟨counterAfter (count + 1), uuidBase⟩) := by
  unfold newUuid
  rw [copy, if_neg Bool.false_ne_true, atomic64IncReturn_counterAfter]
  rfl

theorem iteCreate_uuid (hi : HvfsIndex) (e : Ite) : (iteCreate hi e).uuid = e.uuid := by
  unfold iteCreate
  simp only
  split_ifs
  · rfl
  · rfl
  · rfl
  · rfl
  · cases hi.data.mu with
    | none => rfl
    | some mu =>
      simp only
      split_ifs <;> rfl

/-- A call of `itb_add_ite`. -/
structure Creation where
  itb : Itb
  hi : HvfsIndex

/-- The number of the entry that the call fills. -/
def Creation.nr (call : Creation) : Nat := findFirstZeroBit call.itb.bitmap call.itb.total

/-- The block has room for the entry. -/
def Creation.Accepted (call : Creation) : Prop :=
  call.itb.entries + 1 ≤ (call.itb.total : Int) ∧ call.nr < call.itb.total

instance (call : Creation) : Decidable call.Accepted := inferInstanceAs (Decidable (_ ∧ _))

/-- The call stores an entry and allocates a uuid for it. -/
def Creation.allocates (call : Creation) : Bool :=
  decide call.Accepted && !Flag.has call.hi.flag INDEX_CREATE_COPY

/-- An accepted call stores the new entry, with the counter after its uuid. -/
theorem Creation.Accepted.stored {call : Creation} (accepted : call.Accepted) (hmi : Hmi) :
    (itbAddIte hmi call.itb call.hi).err = 0 ∧
      (itbAddIte hmi call.itb call.hi).hmi = (newIte hmi call.hi).2 ∧
      (itbAddIte hmi call.itb call.hi).itb.ite call.nr =
        iteCreate call.hi (newIte hmi call.hi).1 := by
  obtain ⟨room, clear⟩ := accepted
  have total : ({ call.itb with entries := call.itb.entries + 1 } : Itb).total =
    call.itb.total := rfl
  unfold Creation.nr at clear ⊢
  generalize found : findFirstZeroBit call.itb.bitmap call.itb.total = nr at clear ⊢
  simp only [itbAddIte, total, if_pos room, found, if_pos clear, setIte_ite, Function.update_self]
  exact ⟨trivial, trivial, trivial⟩

/-- A call that is refused leaves the counter. -/
theorem Creation.refused {call : Creation} (refused : ¬call.Accepted) (hmi : Hmi) :
    (itbAddIte hmi call.itb call.hi).err ≠ 0 ∧ (itbAddIte hmi call.itb call.hi).hmi = hmi := by
  have total : ({ call.itb with entries := call.itb.entries + 1 } : Itb).total =
    call.itb.total := rfl
  by_cases room : call.itb.entries + 1 ≤ (call.itb.total : Int)
  · have taken : ¬call.nr < call.itb.total := fun clear => refused ⟨room, clear⟩
    unfold Creation.nr at taken
    simp only [itbAddIte, total, if_pos room, if_neg taken]
    exact ⟨by decide, trivial⟩
  · simp only [itbAddIte, total, if_neg room]
    exact ⟨by decide, trivial⟩

/-! ### Every run -/

/-- The uuids that a run of calls gives out, each with its request. -/
def uuidsGiven : Hmi → List Creation → List (HvfsIndex × U64)
  | _, [] => []
  | hmi, call :: rest =>
    let result := itbAddIte hmi call.itb call.hi
    if result.err = 0 ∧ Flag.has call.hi.flag INDEX_CREATE_COPY = false then
      (call.hi, (result.itb.ite call.nr).uuid) :: uuidsGiven result.hmi rest
    else uuidsGiven result.hmi rest

/-- What is promised of the uuids of one server. -/
structure UuidsRight (uuidBase : U64) (given : List (HvfsIndex × U64)) : Prop where
  distinct : given.Pairwise fun first second => first.2.setWidth 63 ≠ second.2.setWidth 63
  base : ∀ one ∈ given, one.2.extractLsb' 43 20 = uuidBase.extractLsb' 43 20
  dir : ∀ one ∈ given, iteIsDir one.2 = Flag.has one.1.flag INDEX_CREATE_DIR

/-- A base of which the top bit and the low 43 bits are clear. -/
structure CleanBase (uuidBase : U64) : Prop where
  top : uuidBase.msb = false
  low : uuidBase.setWidth 43 = 0

/-- The uuids come in the order of the calls that allocate. -/
theorem uuidsGiven_eq (uuidBase : U64) (count : Nat) (calls : List Creation) :
    uuidsGiven ⟨counterAfter count, uuidBase⟩ calls =
      ((calls.filter Creation.allocates).zipIdx (count + 1)).map fun call =>
        (call.1.hi, uuidAt uuidBase call.2 call.1.hi) := by
  induction calls generalizing count with
  | nil => rfl
  | cons call rest inductionHypothesis =>
    rw [uuidsGiven]
    by_cases accepted : call.Accepted
    · obtain ⟨succeeded, hmi, stored⟩ := accepted.stored ⟨counterAfter count, uuidBase⟩
      cases copy : Flag.has call.hi.flag INDEX_CREATE_COPY with
      | true =>
        have same : (newIte ⟨counterAfter count, uuidBase⟩ call.hi).2 =
            ⟨counterAfter count, uuidBase⟩ := by
          simp only [newIte, newUuid, copy, if_true]
        rw [if_neg fun both => Bool.false_ne_true both.2.symm, hmi, same, inductionHypothesis,
          List.filter_cons_of_neg (by simp [Creation.allocates, copy])]
      | false =>
        have allocated : newUuid ⟨counterAfter count, uuidBase⟩ call.hi =
            (uuidAt uuidBase (count + 1) call.hi, ⟨counterAfter (count + 1), uuidBase⟩) :=
          newUuid_uuidAt uuidBase count copy
        have next : (newIte ⟨counterAfter count, uuidBase⟩ call.hi).2 =
            ⟨counterAfter (count + 1), uuidBase⟩ := congrArg Prod.snd allocated
        have uuid : (newIte ⟨counterAfter count, uuidBase⟩ call.hi).1.uuid =
            uuidAt uuidBase (count + 1) call.hi := congrArg Prod.fst allocated
        rw [if_pos ⟨succeeded, rfl⟩, hmi, next, inductionHypothesis, stored, iteCreate_uuid, uuid,
          List.filter_cons_of_pos (by simp [Creation.allocates, accepted, copy]),
          List.zipIdx_cons, List.map_cons]
    · obtain ⟨failed, same⟩ := Creation.refused accepted ⟨counterAfter count, uuidBase⟩
      rw [if_neg fun both => failed both.1, same, inductionHypothesis,
        List.filter_cons_of_neg (by simp [Creation.allocates, accepted])]

/-! ### The bits of a uuid -/

section Bits

variable {uuidBase : U64} {number : Nat} {hi : HvfsIndex}

/-- Above its 32 bits an extended counter repeats its sign. -/
theorem signExtend_extract (counter : Long) :
    (counter.signExtend 64).extractLsb' 43 20 =
      if counter.msb then BitVec.allOnes 20 else 0 := by
  apply BitVec.eq_of_getLsbD_eq
  intro bit bound
  rw [BitVec.getLsbD_extractLsb', BitVec.getLsbD_signExtend, decide_eq_true bound,
    decide_eq_true (show 43 + bit < 64 by omega), if_neg (show ¬43 + bit < 32 by omega)]
  cases counter.msb
  · simp
  · rw [if_pos rfl, BitVec.getLsbD_allOnes, decide_eq_true bound]
    rfl

theorem signExtend_low (counter : Long) : (counter.signExtend 64).setWidth 32 = counter := by
  apply BitVec.eq_of_getLsbD_eq
  intro bit bound
  rw [BitVec.getLsbD_setWidth, BitVec.getLsbD_signExtend, decide_eq_true bound,
    decide_eq_true (show bit < 64 by omega), if_pos bound, Bool.true_and, Bool.true_and]

theorem iteIsDir_eq (uuid : U64) : iteIsDir uuid = uuid.msb := by
  have highest : HVFS_UUID_HIGHEST_BIT = BitVec.twoPow 64 63 := by decide
  rw [iteIsDir, Flag.has, highest, BitVec.and_twoPow, BitVec.msb_eq_getLsbD_last]
  cases uuid.getLsbD 63 <;> rfl

theorem uuidAt_low (clean : CleanBase uuidBase) (number : Nat) (hi : HvfsIndex) :
    (uuidAt uuidBase number hi).setWidth 32 = counterAfter number := by
  have highest : HVFS_UUID_HIGHEST_BIT.setWidth 32 = 0 := by decide
  have base : uuidBase.setWidth 32 = 0 := by
    have within := BitVec.setWidth_setWidth_of_le uuidBase (show 32 ≤ 43 by decide)
    rw [← within, clean.low]
    rfl
  have plain : ((counterAfter number).signExtend 64 ||| uuidBase).setWidth 32 =
      counterAfter number := by
    rw [BitVec.setWidth_or, base, signExtend_low]
    exact BitVec.or_zero
  unfold uuidAt
  simp only
  split_ifs
  · rw [BitVec.setWidth_or, plain, highest]
    exact BitVec.or_zero
  · exact plain

/-- The bits of the server, once the sign of the counter is in them. -/
theorem uuidAt_base (number : Nat) (hi : HvfsIndex) :
    (uuidAt uuidBase number hi).extractLsb' 43 20 =
      (if (counterAfter number).msb then BitVec.allOnes 20 else 0) |||
        uuidBase.extractLsb' 43 20 := by
  have highest : HVFS_UUID_HIGHEST_BIT.extractLsb' 43 20 = 0 := by decide
  unfold uuidAt
  cases Flag.has hi.flag INDEX_CREATE_DIR
  · rw [if_neg Bool.false_ne_true, BitVec.extractLsb'_or, signExtend_extract]
  · rw [if_pos rfl, BitVec.extractLsb'_or, BitVec.extractLsb'_or, signExtend_extract, highest]
    exact BitVec.or_zero

theorem uuidAt_base_iff :
    (uuidAt uuidBase number hi).extractLsb' 43 20 = uuidBase.extractLsb' 43 20 ↔
      ((counterAfter number).msb = true → uuidBase.extractLsb' 43 20 = BitVec.allOnes 20) := by
  rw [uuidAt_base]
  cases (counterAfter number).msb
  · rw [if_neg Bool.false_ne_true]
    exact iff_of_true BitVec.zero_or fun absurdity => nomatch absurdity
  · rw [if_pos rfl, BitVec.allOnes_or]
    exact ⟨fun same _ => same.symm, fun full => (full rfl).symm⟩

theorem uuidAt_dir_iff (clean : CleanBase uuidBase) :
    iteIsDir (uuidAt uuidBase number hi) = Flag.has hi.flag INDEX_CREATE_DIR ↔
      ((counterAfter number).msb = true → Flag.has hi.flag INDEX_CREATE_DIR = true) := by
  rw [iteIsDir_eq]
  unfold uuidAt
  simp only
  split_ifs with dir
  · rw [BitVec.msb_or, dir]
    exact iff_of_true (Bool.or_true _) fun _ => rfl
  · rw [BitVec.msb_or, BitVec.msb_signExtend, clean.top, Bool.eq_false_of_not_eq_true dir]
    cases (counterAfter number).msb <;> simp

/-- The top bit apart, two uuids agree exactly when their counters do. -/
theorem uuidAt_same_iff (clean : CleanBase uuidBase) {number other : Nat} {hi otherHi : HvfsIndex} :
    (uuidAt uuidBase number hi).setWidth 63 = (uuidAt uuidBase other otherHi).setWidth 63 ↔
      number % 2 ^ 32 = other % 2 ^ 32 := by
  have highest : HVFS_UUID_HIGHEST_BIT.setWidth 63 = 0 := by decide
  have each : ∀ number hi, (uuidAt uuidBase number hi).setWidth 63 =
      ((counterAfter number).signExtend 64 ||| uuidBase).setWidth 63 := by
    intro number hi
    unfold uuidAt
    simp only
    split_ifs
    · rw [BitVec.setWidth_or, highest]
      exact BitVec.or_zero
    · rfl
  constructor
  · intro same
    have low := congrArg (BitVec.setWidth 32) same
    rw [BitVec.setWidth_setWidth_of_le _ (by decide), BitVec.setWidth_setWidth_of_le _ (by decide),
      uuidAt_low clean, uuidAt_low clean] at low
    exact congrArg BitVec.toNat low
  · intro same
    have counters : counterAfter number = counterAfter other := BitVec.eq_of_toNat_eq same
    rw [each, each, counters]

end Bits

/-! ### The uuids of a server -/

theorem start_counter (uuidBase : U64) : Hmi.start uuidBase = ⟨counterAfter 0, uuidBase⟩ := rfl

/-- The counter does not get into the bits of the server, or it finds nothing to spoil there: these
bits are ones already, and whatever is created while the sign is set is a directory. -/
def CounterFits (uuidBase : U64) (calls : List Creation) : Prop :=
  calls.countP Creation.allocates < 2 ^ 31 ∨
    uuidBase.extractLsb' 43 20 = BitVec.allOnes 20 ∧
      calls.countP Creation.allocates ≤ 2 ^ 32 ∧
      ∀ call number, (call, number) ∈ (calls.filter Creation.allocates).zipIdx 1 →
        2 ^ 31 ≤ number → number < 2 ^ 32 → Flag.has call.hi.flag INDEX_CREATE_DIR = true

section Server

variable {uuidBase : U64} {calls : List Creation}

/-- The numbers of the creations of a run. -/
theorem number_le {call : Creation} {number : Nat}
    (member : (call, number) ∈ (calls.filter Creation.allocates).zipIdx 1) :
    1 ≤ number ∧ number ≤ calls.countP Creation.allocates := by
  have bounds := List.mem_zipIdx member
  rw [List.countP_eq_length_filter]
  omega

/-- A run of at least so many creations has one with the number. -/
theorem exists_number {number : Nat} (positive : 1 ≤ number)
    (many : number ≤ calls.countP Creation.allocates) :
    ∃ call, (call, number) ∈ (calls.filter Creation.allocates).zipIdx 1 := by
  rw [List.countP_eq_length_filter] at many
  have given : number - 1 < (calls.filter Creation.allocates).length := by omega
  have inside : number - 1 < ((calls.filter Creation.allocates).zipIdx 1).length := by
    rw [List.length_zipIdx]
    exact given
  refine ⟨(calls.filter Creation.allocates)[number - 1], ?_⟩
  have member := List.getElem_mem inside
  rw [List.getElem_zipIdx, Nat.add_sub_cancel' positive] at member
  exact member

/-- The uuids are pairwise distinct, the top bit apart, for `2 ^ 32` creations. -/
theorem uuids_distinct_iff (clean : CleanBase uuidBase) :
    (uuidsGiven (Hmi.start uuidBase) calls).Pairwise
        (fun first second => first.2.setWidth 63 ≠ second.2.setWidth 63) ↔
      calls.countP Creation.allocates ≤ 2 ^ 32 := by
  have length : ((calls.filter Creation.allocates).zipIdx 1).length =
      calls.countP Creation.allocates := by
    rw [List.length_zipIdx, List.countP_eq_length_filter]
  rw [start_counter, uuidsGiven_eq, Nat.zero_add, List.pairwise_map, List.pairwise_iff_getElem]
  constructor
  · intro distinct
    by_contra many
    refine distinct 0 (2 ^ 32) (by omega) (by omega) (by decide) ?_
    rw [uuidAt_same_iff clean, List.getElem_zipIdx, List.getElem_zipIdx]
    exact show (1 + 0) % 2 ^ 32 = (1 + 2 ^ 32) % 2 ^ 32 by decide
  · intro few first second firstInside secondInside before same
    rw [uuidAt_same_iff clean, List.getElem_zipIdx, List.getElem_zipIdx] at same
    omega

/-- What is right of each uuid by itself. -/
theorem uuids_each_iff (clean : CleanBase uuidBase) :
    (∀ one ∈ uuidsGiven (Hmi.start uuidBase) calls,
        one.2.extractLsb' 43 20 = uuidBase.extractLsb' 43 20 ∧
          iteIsDir one.2 = Flag.has one.1.flag INDEX_CREATE_DIR) ↔
      ∀ call number, (call, number) ∈ (calls.filter Creation.allocates).zipIdx 1 →
        (counterAfter number).msb = true → uuidBase.extractLsb' 43 20 = BitVec.allOnes 20 ∧
          Flag.has call.hi.flag INDEX_CREATE_DIR = true := by
  rw [start_counter, uuidsGiven_eq, Nat.zero_add]
  constructor
  · intro right call number member sign
    obtain ⟨base, dir⟩ := right _ (List.mem_map_of_mem member)
    exact ⟨uuidAt_base_iff.mp base sign, (uuidAt_dir_iff clean).mp dir sign⟩
  · intro fits one given
    obtain ⟨⟨call, number⟩, member, rfl⟩ := List.mem_map.mp given
    exact ⟨uuidAt_base_iff.mpr fun sign => (fits call number member sign).1,
      (uuidAt_dir_iff clean).mpr fun sign => (fits call number member sign).2⟩

/-- The uuids of a server are right exactly as long as the sign of the counter does not show. -/
theorem uuids_right_iff (uuidBase : U64) (clean : CleanBase uuidBase) (calls : List Creation) :
    UuidsRight uuidBase (uuidsGiven (Hmi.start uuidBase) calls) ↔ CounterFits uuidBase calls := by
  constructor
  · rintro ⟨distinct, base, dir⟩
    have few := (uuids_distinct_iff clean).mp distinct
    have each := (uuids_each_iff clean).mp fun one member => ⟨base one member, dir one member⟩
    by_cases short : calls.countP Creation.allocates < 2 ^ 31
    · exact Or.inl short
    · refine Or.inr ⟨?_, few, fun call number member low high => ?_⟩
      · obtain ⟨call, member⟩ := exists_number (show 1 ≤ 2 ^ 31 by decide) (not_lt.mp short)
        exact (each call _ member (by rw [counterAfter_msb (by decide)]; decide)).1
      · exact (each call number member
          (by rw [counterAfter_msb high]; exact decide_eq_true low)).2
  · intro fits
    have few : calls.countP Creation.allocates ≤ 2 ^ 32 := by
      rcases fits with short | ⟨_, few, _⟩
      · exact short.le.trans (by decide)
      · exact few
    have each := (uuids_each_iff clean).mpr (show ∀ call number,
        (call, number) ∈ (calls.filter Creation.allocates).zipIdx 1 →
        (counterAfter number).msb = true → _ by
      intro call number member sign
      have bounds := number_le member
      -- the number `2 ^ 32` is that of a counter back at zero, which has no sign
      have high : number < 2 ^ 32 := by
        refine lt_of_le_of_ne (bounds.2.trans few) ?_
        rintro rfl
        exact absurd sign (by decide)
      rw [counterAfter_msb high, decide_eq_true_iff] at sign
      rcases fits with short | ⟨full, _, dirs⟩
      · omega
      · exact ⟨full, dirs call number member sign high⟩)
    exact ⟨(uuids_distinct_iff clean).mpr few, fun one member => (each one member).1,
      fun one member => (each one member).2⟩

end Server

/-- A file is created in an empty block. -/
def fileCreation : Creation := ⟨emptyItb 3, collidingIndex INDEX_CREATE 0 97⟩

theorem uuids_right_iff_file :
    CleanBase 0x80000000000#64 ∧
      (UuidsRight 0x80000000000#64 (uuidsGiven (Hmi.start 0x80000000000#64) [fileCreation]) ↔
        CounterFits 0x80000000000#64 [fileCreation]) :=
  ⟨⟨by decide, by decide⟩, uuids_right_iff _ ⟨by decide, by decide⟩ _⟩

/-- The file number `2 ^ 31` gets the uuid of a directory of another server. -/
theorem uuids_not_right :
    CleanBase 0x80000000000#64 ∧
      (List.replicate (2 ^ 31) fileCreation).countP Creation.allocates ≤ HVFS_MAX_UUID_PER_MDS ∧
      ¬UuidsRight 0x80000000000#64
        (uuidsGiven (Hmi.start 0x80000000000#64) (List.replicate (2 ^ 31) fileCreation)) := by
  have clean : CleanBase 0x80000000000#64 := ⟨by decide, by decide⟩
  have count : (List.replicate (2 ^ 31) fileCreation).countP Creation.allocates = 2 ^ 31 := by
    rw [List.countP_replicate, if_pos (by decide)]
  refine ⟨clean, by rw [count]; decide, fun right => ?_⟩
  have each := (uuids_each_iff clean).mp
    fun one member => ⟨right.base one member, right.dir one member⟩
  obtain ⟨call, member⟩ := exists_number (show 1 ≤ 2 ^ 31 by decide) count.ge
  have base := (each call _ member (by rw [counterAfter_msb (by decide)]; decide)).1
  exact absurd base (by decide)

end Hvfs
