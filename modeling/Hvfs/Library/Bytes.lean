/-
This file is a small library on little-endian words: a word as the list of its
bytes, reading a word back from the beginning of a list, and skipping one. A C
structure is the concatenation of its words, and a field is read by dropping
what stands before it.
-/

import Mathlib.Data.Nat.Bitwise
import Mathlib.Data.Nat.Digits.Defs
import Mathlib.Tactic.Common

namespace LittleEndian

/-! ### Numbers -/

/-- The lowest `count` bytes of a number, the lowest first. -/
def leBytes : Nat → Nat → List (BitVec 8)
  | 0, _ => []
  | count + 1, value => BitVec.ofNat 8 value :: leBytes count (value / 256)

/-- The number with the given bytes. -/
def leNat (bytes : List (BitVec 8)) : Nat := Nat.ofDigits 256 (bytes.map BitVec.toNat)

theorem leBytes_length (count value : Nat) : (leBytes count value).length = count := by
  induction count generalizing value with
  | zero => rfl
  | succ count inductionHypothesis => rw [leBytes, List.length_cons, inductionHypothesis]

theorem leNat_leBytes (count value : Nat) : leNat (leBytes count value) = value % 256 ^ count := by
  induction count generalizing value with
  | zero => rw [pow_zero, Nat.mod_one]; rfl
  | succ count inductionHypothesis =>
    have step : leNat (leBytes (count + 1) value) =
        value % 256 + 256 * leNat (leBytes count (value / 256)) := by
      rw [leNat, leBytes, List.map_cons, Nat.ofDigits_cons, BitVec.toNat_ofNat]
      rfl
    rw [step, inductionHypothesis, pow_succ', Nat.mod_mul]

/-- The bytes of a number are those of its low part and then those of the rest. -/
theorem leBytes_add (low high value : Nat) :
    leBytes (low + high) value = leBytes low value ++ leBytes high (value / 256 ^ low) := by
  induction low generalizing value with
  | zero => rw [Nat.zero_add, pow_zero, Nat.div_one]; rfl
  | succ low inductionHypothesis =>
    rw [Nat.succ_add, leBytes, leBytes, inductionHypothesis, List.cons_append, pow_succ',
      Nat.div_div_eq_div_mul]

theorem leBytes_mod (count value : Nat) :
    leBytes count (value % 256 ^ count) = leBytes count value := by
  induction count generalizing value with
  | zero => rfl
  | succ count inductionHypothesis =>
    have low : BitVec.ofNat 8 (value % 256 ^ (count + 1)) = BitVec.ofNat 8 value := by
      refine BitVec.eq_of_toNat_eq ?_
      rw [BitVec.toNat_ofNat, BitVec.toNat_ofNat]
      exact Nat.mod_mod_of_dvd value (Dvd.intro_left (256 ^ count) (pow_succ 256 count).symm)
    have high : value % 256 ^ (count + 1) / 256 = value / 256 % 256 ^ count := by
      rw [pow_succ', Nat.mod_mul_right_div_self]
    rw [leBytes, leBytes, low, high, inductionHypothesis]

/-! ### Words -/

section Words

variable {width : Nat}

/-- A word as it lies in memory. -/
def putWord (count : Nat) (word : BitVec width) : List (BitVec 8) := leBytes count word.toNat

/-- The word at the beginning of the memory. -/
def getWord (width count : Nat) (memory : List (BitVec 8)) : BitVec width :=
  BitVec.ofNat width (leNat (memory.take count))

@[simp] theorem putWord_length (count : Nat) (word : BitVec width) :
    (putWord count word).length = count := leBytes_length count word.toNat

/-- A word that fits is read back. -/
theorem getWord_putWord {count : Nat} (fits : 2 ^ width ≤ 256 ^ count) (word : BitVec width)
    (rest : List (BitVec 8)) : getWord width count (putWord count word ++ rest) = word := by
  have front : (putWord count word ++ rest).take count = putWord count word :=
    List.take_left' (putWord_length count word)
  unfold getWord
  rw [front, putWord, leNat_leBytes, Nat.mod_eq_of_lt (lt_of_lt_of_le word.isLt fits),
    BitVec.ofNat_toNat, BitVec.setWidth_eq]

/-- What lies behind a word. -/
theorem drop_putWord {count offset : Nat} (behind : count ≤ offset) (word : BitVec width)
    (rest : List (BitVec 8)) :
    (putWord count word ++ rest).drop offset = rest.drop (offset - count) := by
  have split : offset = (putWord count word).length + (offset - count) := by
    rw [putWord_length]
    omega
  conv_lhs => rw [split]
  exact List.drop_length_add_append _

/-- A word made of two lies in memory as the lower one and then the higher one. -/
theorem putWord_append {lowWidth count : Nat} (whole : 2 ^ lowWidth = 256 ^ count) (more : Nat)
    (high : BitVec width) (low : BitVec lowWidth) :
    putWord (count + more) (high ++ low) = putWord count low ++ putWord more high := by
  have number : (high ++ low).toNat = high.toNat * 256 ^ count + low.toNat := by
    rw [BitVec.toNat_append, ← Nat.shiftLeft_add_eq_or_of_lt low.isLt, Nat.shiftLeft_eq, whole]
  have below : low.toNat < 256 ^ count := whole ▸ low.isLt
  unfold putWord
  rw [leBytes_add, number, Nat.add_comm, ← leBytes_mod count, Nat.add_mul_mod_self_right,
    Nat.mod_eq_of_lt below, Nat.add_mul_div_right _ _ (Nat.pow_pos (Nat.zero_lt_succ _)),
    Nat.div_eq_of_lt below, Nat.zero_add]

end Words

/-! ### The bytes of a word -/

section WordBytes

variable {width : Nat}

/-- The byte of a word at an offset. -/
def byteOf (word : BitVec width) (k : Nat) : BitVec 8 := word.extractLsb' (8 * k) 8

theorem leNat_cons (byte : BitVec 8) (rest : List (BitVec 8)) :
    leNat (byte :: rest) = byte.toNat + 256 * leNat rest := by
  unfold leNat
  rw [List.map_cons, Nat.ofDigits_cons]

theorem leNat_byte (bytes : List (BitVec 8)) (k : Nat) :
    leNat bytes / 256 ^ k % 256 = (bytes.getD k 0).toNat := by
  induction bytes generalizing k with
  | nil =>
    rw [List.getD_nil]
    show 0 / 256 ^ k % 256 = 0
    rw [Nat.zero_div]
  | cons byte rest inductionHypothesis =>
    have low : byte.toNat < 256 := byte.isLt
    rw [leNat_cons]
    cases k with
    | zero =>
      rw [pow_zero, Nat.div_one, Nat.add_mul_mod_self_left, Nat.mod_eq_of_lt low,
        List.getD_cons_zero]
    | succ k =>
      rw [pow_succ', ← Nat.div_div_eq_div_mul, Nat.add_mul_div_left _ _ (by decide),
        Nat.div_eq_of_lt low, Nat.zero_add, inductionHypothesis, List.getD_cons_succ]

/-- A word that was read has the bytes of the memory. -/
theorem byteOf_getWord {count k : Nat} (inside : k < count) (fits : 8 * count ≤ width)
    (memory : List (BitVec 8)) : byteOf (getWord width count memory) k = memory.getD k 0 := by
  refine BitVec.eq_of_toNat_eq ?_
  have byte := leNat_byte (memory.take count) k
  have taken : (memory.take count).getD k 0 = memory.getD k 0 := by
    rw [List.getD_eq_getElem?_getD, List.getD_eq_getElem?_getD, List.getElem?_take_of_lt inside]
  unfold byteOf getWord
  rw [← taken, ← byte, BitVec.extractLsb'_toNat, BitVec.toNat_ofNat, Nat.shiftRight_eq_div_pow,
    pow_mul]
  have split : 2 ^ width = 256 ^ k * (256 * 2 ^ (width - 8 * (k + 1))) := by
    rw [show (256 : Nat) = 2 ^ 8 from rfl, ← pow_mul, ← pow_add, ← pow_add]
    congr 1
    omega
  show leNat (memory.take count) % 2 ^ width / 256 ^ k % 256 = _
  rw [split, Nat.mod_mul_right_div_self, Nat.mod_mul_right_mod]

theorem byteOf_zero (k : Nat) : byteOf (0 : BitVec width) k = 0 := by
  unfold byteOf
  exact BitVec.extractLsb'_zero

/-- The mask of the lowest `count` bytes keeps these. -/
theorem byteOf_and_mask (word : BitVec width) (count k : Nat) :
    byteOf (word &&& BitVec.ofNat width (2 ^ (8 * count) - 1)) k =
      if k < count then byteOf word k else 0 := by
  refine BitVec.eq_of_getLsbD_eq fun bit inside => ?_
  unfold byteOf
  rw [BitVec.getLsbD_extractLsb', BitVec.getLsbD_and, BitVec.getLsbD_ofNat,
    Nat.testBit_two_pow_sub_one]
  split_ifs with low
  · have below : 8 * k + bit < 8 * count := by omega
    rw [BitVec.getLsbD_extractLsb']
    simp only [inside, below, decide_true, Bool.and_true, Bool.true_and]
    rcases Nat.lt_or_ge (8 * k + bit) width with less | more
    · rw [decide_eq_true less, Bool.and_true]
    · rw [BitVec.getLsbD_of_ge _ _ more, Bool.false_and]
  · have above : ¬8 * k + bit < 8 * count := by omega
    simp [above]

end WordBytes

end LittleEndian
