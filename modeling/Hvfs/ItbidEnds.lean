/-
This file determines when `mds_get_itbid` ends.

A turn makes progress when it lowers the offset, or when it loads a slice that
decides about the offset. The other turns leave the next one with the same
question: the offset 0 falls back to itself, a reply with an error or without a
bitmap is taken for a success, and a loaded slice can be lost.
-/

import Hvfs.DirBitmap

namespace Hvfs

/-! ### Falling back -/

theorem fls_eq (x : U32) : fls x = if x.toNat = 0 then 0 else Nat.log2 x.toNat + 1 := by
  unfold fls
  by_cases zero : x = 0
  · have none : x.toNat = 0 := congrArg BitVec.toNat zero
    rw [if_pos zero, if_pos none]
  · have some : x.toNat ≠ 0 := fun none => zero (BitVec.eq_of_toNat_eq none)
    rw [if_neg zero, if_neg some]

/-- Clearing a bit that is set takes its value off. -/
theorem clearBit_toNat {nr : Nat} {word : U64} (inside : nr < 64) (set : word.getLsbD nr = true) :
    (clearBit nr word).toNat + 2 ^ nr = word.toNat := by
  have mask : 1#64 <<< nr = BitVec.twoPow 64 nr := rfl
  have bit : word &&& BitVec.twoPow 64 nr = BitVec.twoPow 64 nr := by
    rw [BitVec.and_twoPow, if_pos set]
  have apart : clearBit nr word &&& BitVec.twoPow 64 nr = 0 := by
    unfold clearBit
    rw [mask, BitVec.and_assoc, BitVec.and_comm (~~~_), BitVec.and_not_self]
    exact BitVec.and_zero
  have joined : clearBit nr word ||| BitVec.twoPow 64 nr = word := by
    unfold clearBit
    rw [mask, ← bit]
    ext i bound
    simp only [BitVec.getElem_or, BitVec.getElem_and, BitVec.getElem_not]
    cases word[i] <;> simp
  have sum := BitVec.toNat_add_of_and_eq_zero apart
  rw [BitVec.add_eq_or_of_and_eq_zero _ _ apart, joined, BitVec.toNat_twoPow,
    Nat.mod_eq_of_lt (Nat.pow_lt_pow_right (by decide) inside)] at sum
  exact sum.symm

/-- `mds_bitmap_fallback` takes off the highest bit of the low 32 bits, and ends at 0. -/
theorem mdsBitmapFallback_toNat (offset : U64) :
    (mdsBitmapFallback offset).toNat = if offset.toNat % 2 ^ 32 = 0 then 0
      else offset.toNat - 2 ^ Nat.log2 (offset.toNat % 2 ^ 32) := by
  have low : (offset.setWidth 32).toNat = offset.toNat % 2 ^ 32 := BitVec.toNat_setWidth 32 offset
  unfold mdsBitmapFallback
  simp only [fls_eq, low]
  by_cases none : offset.toNat % 2 ^ 32 = 0
  · rw [if_pos none, if_pos none, if_pos rfl]
    rfl
  · rw [if_neg none, if_neg none, if_neg (Nat.succ_ne_zero _), Nat.add_sub_cancel]
    have small : Nat.log2 (offset.toNat % 2 ^ 32) < 32 :=
      (Nat.log2_lt none).mpr (Nat.mod_lt _ (by decide))
    have set : offset.getLsbD (Nat.log2 (offset.toNat % 2 ^ 32)) = true := by
      have top := Nat.testBit_log2 none
      rw [Nat.testBit_mod_two_pow, Bool.and_eq_true] at top
      exact top.2
    have sum := clearBit_toNat (by omega) set
    omega

/-- Falling back lowers every offset but 0. -/
theorem mdsBitmapFallback_lt {offset : U64} (nonzero : offset ≠ 0) :
    (mdsBitmapFallback offset).toNat < offset.toNat := by
  have positive : 0 < offset.toNat :=
    Nat.pos_of_ne_zero fun zero => nonzero (BitVec.eq_of_toNat_eq zero)
  rw [mdsBitmapFallback_toNat]
  split_ifs
  · exact positive
  · exact Nat.sub_lt positive (Nat.two_pow_pos _)

/-! ### Progress -/

/-- The turn returns, lowers the offset, or loads a slice that decides about the offset. -/
def Progress (answer : LoadAnswer) (s : ItbidSearch) : Prop :=
  match itbidWalk s.offset s.slices with
  | .found => True
  | .fall => s.offset ≠ 0
  | .load =>
    match answer with
    | .failed err _ => err = -ENOTEXIST → s.offset ≠ 0
    | .replyError _ _ => False
    | .noBitmap => False
    | .slice bitmap => itbidWalk s.offset (loadInsert s.slices bitmap s.offset) ≠ .load

/-- The search after so many turns; `none` when it has returned. -/
def itbidAfter (answers : Nat → LoadAnswer) : Nat → ItbidSearch → Option ItbidSearch
  | 0, s => some s
  | turns + 1, s =>
    match itbidTurn (answers s.loads) s with
    | .inl _ => none
    | .inr s => itbidAfter answers turns s

section Turns

variable {answers : Nat → LoadAnswer} {answer : LoadAnswer} {s next : ItbidSearch}

/-- What the turns with progress lower: the offset, and then that a slice is missing. -/
def ItbidSearch.rank (s : ItbidSearch) : Nat :=
  2 * s.offset.toNat + if itbidWalk s.offset s.slices = .load then 1 else 0

theorem rank_lt_of_offset (lower : next.offset.toNat < s.offset.toNat) : next.rank < s.rank := by
  unfold ItbidSearch.rank
  split_ifs <;> omega

theorem rank_lt_of_decided (same : next.offset = s.offset)
    (missing : itbidWalk s.offset s.slices = .load)
    (decided : itbidWalk s.offset next.slices ≠ .load) : next.rank < s.rank := by
  unfold ItbidSearch.rank
  rw [same, if_pos missing, if_neg decided]
  omega

/-- A turn with progress returns or lowers the rank. -/
theorem Progress.rank_lt (progress : Progress answer s)
    (turned : itbidTurn answer s = .inr next) : next.rank < s.rank := by
  unfold Progress at progress
  unfold itbidTurn at turned
  cases walk : itbidWalk s.offset s.slices with
  | found =>
    rw [walk] at turned
    cases turned
  | fall =>
    rw [walk] at turned progress
    cases turned
    exact rank_lt_of_offset (mdsBitmapFallback_lt progress)
  | load =>
    rw [walk] at turned progress
    simp only at turned progress
    cases answer with
    | failed err nonzero =>
      by_cases notExist : err = -ENOTEXIST
      · have falls := turned.symm.trans (if_pos notExist)
        cases falls
        exact rank_lt_of_offset (mdsBitmapFallback_lt (progress notExist))
      · have returns := turned.symm.trans ((if_neg notExist).trans (if_pos nonzero))
        cases returns
    | replyError err nonzero => exact progress.elim
    | noBitmap => exact progress.elim
    | slice bitmap =>
      cases turned
      exact rank_lt_of_decided rfl walk progress

/-- The other turns leave the next one with the same question. -/
theorem rank_eq_of_stuck (stuck : ¬Progress answer s) (turned : itbidTurn answer s = .inr next) :
    next.rank = s.rank := by
  unfold Progress at stuck
  unfold itbidTurn at turned
  cases walk : itbidWalk s.offset s.slices with
  | found =>
    rw [walk] at turned
    cases turned
  | fall =>
    rw [walk] at turned stuck
    have zero : s.offset = 0 := not_not.mp stuck
    cases turned
    unfold ItbidSearch.rank
    rw [zero]
    rfl
  | load =>
    rw [walk] at turned stuck
    simp only at turned stuck
    cases answer with
    | failed err nonzero =>
      by_cases notExist : err = -ENOTEXIST
      · have zero : s.offset = 0 := not_not.mp fun some => stuck fun _ => some
        have falls := turned.symm.trans (if_pos notExist)
        cases falls
        unfold ItbidSearch.rank
        rw [zero]
        rfl
      · have returns := turned.symm.trans ((if_neg notExist).trans (if_pos nonzero))
        cases returns
    | replyError err nonzero =>
      cases turned
      rfl
    | noBitmap =>
      cases turned
      rfl
    | slice bitmap =>
      have missing : itbidWalk s.offset (loadInsert s.slices bitmap s.offset) = .load :=
        not_not.mp stuck
      cases turned
      unfold ItbidSearch.rank
      rw [walk, mdsBitmapLoad, missing]

/-- No turn makes the rank higher. -/
theorem rank_le_of_turn (turned : itbidTurn answer s = .inr next) : next.rank ≤ s.rank := by
  by_cases progress : Progress answer s
  · exact (progress.rank_lt turned).le
  · exact (rank_eq_of_stuck progress turned).le

/-! ### Runs -/

/-- A search has a result exactly when it is over. -/
theorem itbidRun_isSome (turns : Nat) :
    (itbidRun answers turns s).isSome ↔ itbidAfter answers turns s = none := by
  induction turns generalizing s with
  | zero => simp only [itbidRun, itbidAfter, Option.isSome_none, Bool.false_eq_true, reduceCtorEq]
  | succ turns inductionHypothesis =>
    rw [itbidRun, itbidAfter]
    rcases itbidTurn (answers s.loads) s with result | next
    · exact iff_of_true rfl rfl
    · exact inductionHypothesis

theorem itbidAfter_add (first second : Nat) :
    itbidAfter answers (first + second) s =
      (itbidAfter answers first s).bind (itbidAfter answers second) := by
  induction first generalizing s with
  | zero =>
    rw [Nat.zero_add]
    rfl
  | succ first inductionHypothesis =>
    rw [Nat.succ_add, itbidAfter, itbidAfter]
    rcases itbidTurn (answers s.loads) s with result | next
    · rfl
    · exact inductionHypothesis

theorem rank_le_after {turns : Nat} (reached : itbidAfter answers turns s = some next) :
    next.rank ≤ s.rank := by
  induction turns generalizing s with
  | zero =>
    cases reached
    exact le_rfl
  | succ turns inductionHypothesis =>
    rw [itbidAfter] at reached
    rcases turned : itbidTurn (answers s.loads) s with result | first
    · rw [turned] at reached
      cases reached
    · rw [turned] at reached
      exact (inductionHypothesis reached).trans (rank_le_of_turn turned)

/-- A search that makes progress again and again returns. -/
theorem returns_of_progress
    (progress : ∀ start, ∃ turns ≥ start, ∀ next, itbidAfter answers turns s = some next →
      Progress (answers next.loads) next) :
    ∃ turns, itbidAfter answers turns s = none := by
  induction ranked : s.rank using Nat.strong_induction_on generalizing s with
  | _ rank inductionHypothesis =>
    obtain ⟨turns, -, atTurns⟩ := progress 0
    rcases reached : itbidAfter answers turns s with _ | middle
    · exact ⟨turns, reached⟩
    · rcases turned : itbidTurn (answers middle.loads) middle with result | later
      · refine ⟨turns + 1, ?_⟩
        rw [itbidAfter_add, reached, Option.bind_some, itbidAfter, turned]
      · have shifted : ∀ more, itbidAfter answers (turns + 1 + more) s =
            itbidAfter answers more later := by
          intro more
          rw [Nat.add_assoc, Nat.add_comm 1, itbidAfter_add, reached, Option.bind_some,
            itbidAfter, turned]
        have lower : later.rank < rank := by
          rw [← ranked]
          exact ((atTurns middle reached).rank_lt turned).trans_le (rank_le_after reached)
        obtain ⟨more, returned⟩ := inductionHypothesis later.rank lower (fun start => by
          obtain ⟨place, after, atLater⟩ := progress (turns + 1 + start)
          obtain ⟨more, rfl⟩ := Nat.exists_eq_add_of_le ((Nat.le_add_right _ start).trans after)
          refine ⟨more, by omega, fun next reached => atLater next ?_⟩
          rw [shifted]
          exact reached) rfl
        exact ⟨turns + 1 + more, (shifted more).trans returned⟩

end Turns

/-! ### The end -/

/-- `mds_get_itbid` returns after finitely many turns exactly when it makes progress again and
again, so when it is not from some turn on left with the same question. -/
theorem get_itbid_ends (slices : List Itbitmap) (hash : U64) (answers : Nat → LoadAnswer) :
    (∃ turns, (mdsGetItbid answers turns slices hash).isSome) ↔
      ∀ start, ∃ turns ≥ start, ∀ s,
        itbidAfter answers turns (ItbidSearch.start slices hash) = some s →
          Progress (answers s.loads) s := by
  constructor
  · rintro ⟨turns, returned⟩ start
    refine ⟨turns + start, Nat.le_add_left _ _, fun s reached => ?_⟩
    rw [itbidAfter_add, (itbidRun_isSome turns).mp returned] at reached
    cases reached
  · intro progress
    obtain ⟨turns, returned⟩ := returns_of_progress progress
    exact ⟨turns, (itbidRun_isSome turns).mpr returned⟩

/-- A server that answers every request with an error is asked forever. -/
theorem get_itbid_asks_forever :
    ¬∃ turns, (mdsGetItbid (fun _ => .replyError 1 (by decide)) turns [] 0).isSome := by
  rintro ⟨turns, returned⟩
  have asks : ∀ turns loads,
      itbidRun (fun _ => .replyError 1 (by decide)) turns ⟨0, [], loads⟩ = none := by
    intro turns
    induction turns with
    | zero => exact fun _ => rfl
    | succ turns inductionHypothesis => exact fun loads => inductionHypothesis (loads + 1)
  have never : mdsGetItbid (fun _ => .replyError 1 (by decide)) turns [] 0 = none := asks turns 0
  rw [never] at returned
  cases returned

end Hvfs
