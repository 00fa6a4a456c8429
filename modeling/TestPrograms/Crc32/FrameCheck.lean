import Mathlib.Tactic.IntervalCases
import TestPrograms.Crc32.Program
import TestPrograms.Foundations.Crc

/-! # The printed sequence is the CRC-32

The program shifts its register to the left, so it is the mirror image of the standard
one at every bit of the message.  In the end it mirrors each byte where it stands, which
leaves the bytes of the standard CRC in the opposite order: the order they are sent in.
-/

namespace TestPrograms.Crc32

open TestPrograms.Foundations
open TestPrograms.Foundations.Crc

/-! ## The digits read -/

/-- The digits in front of the first `!`. -/
def digitsOf (input : List Byte) : List Byte :=
  (input.takeWhile fun c => c ≠ bang).filterMap hexDigit?

def messageOf (input : List Byte) : List Byte := pairDigits (digitsOf input)

theorem isxdigit_iff : ∀ c : Byte, isxdigit c = (hexDigit? c).isSome := by
  decide +kernel

theorem readDigit_cases (input : List Byte) :
    (readDigit input = none ∧ digitsOf input = []) ∨
    ∃ c rest digit, readDigit input = some (c, rest) ∧ hexDigit? c = some digit ∧
      digitsOf input = digit :: digitsOf rest := by
  induction input with
  | nil => exact .inl ⟨rfl, rfl⟩
  | cons c input ih =>
    by_cases stop : c = bang
    · exact .inl ⟨by simp [readDigit, stop], by simp [digitsOf, stop]⟩
    · cases spelled : hexDigit? c with
      | some digit =>
        refine .inr ⟨c, input, digit, ?_, spelled, ?_⟩
        · simp [readDigit, stop, isxdigit_iff, spelled]
        · simp [digitsOf, stop, spelled]
      | none =>
        have skipped : readDigit (c :: input) = readDigit input := by
          simp [readDigit, stop, isxdigit_iff, spelled]
        have silent : digitsOf (c :: input) = digitsOf input := by
          simp [digitsOf, stop, spelled]
        rw [skipped, silent]
        exact ih

theorem digitsOf_none {input : List Byte} (ends : readDigit input = none) : digitsOf input = [] := by
  cases readDigit_cases input with
  | inl none => exact none.2
  | inr some =>
    obtain ⟨c, rest, digit, reads, -⟩ := some
    rw [ends] at reads
    cases reads

theorem digitsOf_some {input rest : List Byte} {c : Byte} (reads : readDigit input = some (c, rest)) :
    ∃ digit, hexDigit? c = some digit ∧ digitsOf input = digit :: digitsOf rest := by
  cases readDigit_cases input with
  | inl none =>
    rw [none.1] at reads
    cases reads
  | inr some =>
    obtain ⟨first, after, digit, reads', spelled, digits⟩ := some
    rw [reads] at reads'
    cases reads'
    exact ⟨digit, spelled, digits⟩

theorem hexDigit_small {c digit : Byte} (spelled : hexDigit? c = some digit) : digit < 16#8 := by
  have all : ∀ c : Byte, (hexDigit? c).all fun digit => decide (digit < 16#8) := by decide
  have small := all c
  rw [spelled, Option.all_some, decide_eq_true_eq] at small
  exact small

theorem nibbles_value (high low : Byte) (highSmall : high < 16#8) (lowSmall : low < 16#8) :
    high.zeroExtend 32 * 16#32 + low.zeroExtend 32 = (high <<< 4 ||| low).zeroExtend 32 := by
  have highBound : high.toNat < 16 := BitVec.lt_def.mp highSmall
  have lowBound : low.toNat < 16 := BitVec.lt_def.mp lowSmall
  have joined : high.toNat <<< 4 % 2 ^ 8 ||| low.toNat = 16 * high.toNat + low.toNat := by
    have shifted : high.toNat <<< 4 % 2 ^ 8 = 2 ^ 4 * high.toNat := by
      rw [Nat.shiftLeft_eq]
      omega
    rw [shifted, ← Nat.two_pow_add_eq_or_of_lt (by omega)]
  apply BitVec.eq_of_toNat_eq
  rw [BitVec.toNat_add, BitVec.toNat_mul]
  simp only [BitVec.truncate_eq_setWidth, BitVec.toNat_setWidth, BitVec.toNat_or,
    BitVec.toNat_shiftLeft, joined, BitVec.toNat_ofNat]
  omega

theorem strtol16_pair {c0 c1 high low : Byte} (first : hexDigit? c0 = some high)
    (second : hexDigit? c1 = some low) :
    strtol16 0#32 [c0, c1, 0#8] = (high <<< 4 ||| low).zeroExtend 32 := by
  rw [← nibbles_value high low (hexDigit_small first) (hexDigit_small second)]
  simp [strtol16, first, second, show hexDigit? 0#8 = none by decide]

/-! ## The register -/

theorem crcBit_eq (crc0 value : Word) :
    crcBit crc0 value = shiftInMirrored poly crc0 (value.getLsbD 0) := by
  have top : crc0 >>> 31 &&& 1#32 = (BitVec.ofBool crc0.msb).setWidth 32 := by
    rw [BitVec.and_one_eq_setWidth_ofBool_getLsbD, BitVec.getLsbD_ushiftRight,
      BitVec.msb_eq_getLsbD_last]
  rw [crcBit, shiftInMirrored, top, BitVec.and_one_eq_setWidth_ofBool_getLsbD]
  cases crc0.msb <;> cases value.getLsbD 0 <;> rfl

theorem crcBits_eq (count : Nat) (crc0 value : Word) :
    crcBits count crc0 value =
      ((List.range count).map value.getLsbD).foldl (shiftInMirrored poly) crc0 := by
  induction count generalizing crc0 value with
  | zero => rfl
  | succ count ih =>
    have later : ((List.range count).map Nat.succ).map value.getLsbD =
        (List.range count).map (value >>> 1).getLsbD := by
      rw [List.map_map]
      apply List.map_congr_left
      intro i _
      rw [BitVec.getLsbD_ushiftRight, Function.comp_apply, Nat.succ_eq_add_one, Nat.add_comm]
    rw [crcBits, ih, crcBit_eq, List.range_succ_eq_map, List.map_cons, List.foldl_cons, later]

theorem crcBits_byte (crc0 : Word) (byte : Byte) :
    crcBits 8 crc0 (byte.zeroExtend 32) = (bitsOf byte).foldl (shiftInMirrored poly) crc0 := by
  have bits : (List.range 8).map (byte.zeroExtend 32).getLsbD = bitsOf byte := by
    apply List.map_congr_left
    intro i inside
    have below := List.mem_range.mp inside
    simp only [BitVec.truncate_eq_setWidth, BitVec.getLsbD_setWidth, show i < 32 by omega, decide_true,
      Bool.true_and]
  rw [crcBits_eq, bits]

/-- The outer loop shifts in the message, byte by byte. -/
theorem crcLoop_eq (crc0 : Word) (input : List Byte) :
    crcLoop crc0 input =
      ((messageOf input).flatMap bitsOf).foldl (shiftInMirrored poly) crc0 := by
  fun_induction crcLoop crc0 input with
  | case1 crc0 input ends =>
    -- no digit left: the message is empty
    rw [messageOf, digitsOf_none ends]
    rfl
  | case2 crc0 input c0 rest first ends =>
    -- a last digit without a partner is dropped
    obtain ⟨high, -, digits⟩ := digitsOf_some first
    rw [messageOf, digits, digitsOf_none ends]
    rfl
  | case3 crc0 input c0 rest first c1 rest' second ih =>
    -- a pair of digits is the next byte
    obtain ⟨high, spelled, digits⟩ := digitsOf_some first
    obtain ⟨low, spelled', digits'⟩ := digitsOf_some second
    rw [ih, messageOf, messageOf, digits, digits', pairDigits, List.flatMap_cons, List.foldl_append,
      strtol16_pair spelled spelled', crcBits_byte]

/-! ## The printed number -/

/-- The four octets of a word, least significant first: the order an FCS is sent in. -/
def octets (word : Word) : List Byte :=
  [word.extractLsb' 0 8, word.extractLsb' 8 8, word.extractLsb' 16 8, word.extractLsb' 24 8]

def byteReversed (word : Word) : Word :=
  word.extractLsb' 0 8 ++ word.extractLsb' 8 8 ++ word.extractLsb' 16 8 ++ word.extractLsb' 24 8

theorem rev8_eq_reverse : ∀ c : Byte, rev8 c = c.reverse := by
  decide +kernel

theorem rev8At_bit (crc0 : Word) {shift i : Nat} (inside : i < 32) (room : shift + 8 ≤ 32) :
    (rev8At crc0 shift).getLsbD i =
      (decide (shift ≤ i ∧ i < shift + 8) && crc0.getLsbD (2 * shift + 7 - i)) := by
  rw [rev8At, rev8_eq_reverse]
  simp only [BitVec.truncate_eq_setWidth, BitVec.getLsbD_shiftLeft, BitVec.getLsbD_setWidth,
    BitVec.getLsbD_reverse, BitVec.getMsbD_eq_getLsbD, BitVec.getLsbD_ushiftRight, inside,
    decide_true, Bool.true_and]
  by_cases octet : shift ≤ i ∧ i < shift + 8
  · rw [show shift + (8 - 1 - (i - shift)) = 2 * shift + 7 - i by omega]
    simp [octet, show ¬ i < shift by omega, show i - shift < 8 by omega, show i - shift < 32 by omega,
      show 7 - (i - shift) < 8 by omega]
  · have outside : i < shift ∨ ¬ i - shift < 8 := by omega
    cases outside with
    | inl low => simp [octet, low]
    | inr high => simp [octet, high]

theorem byteReversed_bit (word : Word) {i : Nat} (inside : i < 32) :
    (byteReversed word).getLsbD i = word.getLsbD (24 - 8 * (i / 8) + i % 8) := by
  simp only [byteReversed, BitVec.getLsbD_append, BitVec.getLsbD_extractLsb']
  interval_cases i <;> simp

/-- Mirroring the octets in place turns the mirrored register into the reflected one with
    its bytes reversed. -/
theorem mirrored_octets (crc0 : Word) :
    rev8At crc0 24 ||| rev8At crc0 16 ||| rev8At crc0 8 ||| rev8At crc0 0 =
      byteReversed crc0.reverse := by
  apply BitVec.eq_of_getLsbD_eq
  intro i inside
  have mirrored : (byteReversed crc0.reverse).getLsbD i =
      crc0.getLsbD (31 - (24 - 8 * (i / 8) + i % 8)) := by
    rw [byteReversed_bit _ inside, BitVec.getLsbD_reverse, BitVec.getMsbD_eq_getLsbD,
      decide_eq_true (by omega), Bool.true_and]
  -- the octet that holds bit `i` is the only one of the four that sets it
  have octet : ∀ shift, shift % 8 = 0 → shift + 8 ≤ 32 →
      (rev8At crc0 shift).getLsbD i =
        (decide (i / 8 = shift / 8) && (byteReversed crc0.reverse).getLsbD i) := by
    intro shift aligned room
    rw [rev8At_bit crc0 inside room, mirrored]
    by_cases here : i / 8 = shift / 8
    · rw [decide_eq_true (by omega), decide_eq_true here,
        show 2 * shift + 7 - i = 31 - (24 - 8 * (i / 8) + i % 8) by omega]
    · rw [decide_eq_false (by omega), decide_eq_false here, Bool.false_and, Bool.false_and]
  have quarter : i / 8 = 3 ∨ i / 8 = 2 ∨ i / 8 = 1 ∨ i / 8 = 0 := by omega
  simp only [BitVec.getLsbD_or, octet 24 (by omega) (by omega), octet 16 (by omega) (by omega),
    octet 8 (by omega) (by omega), octet 0 (by omega) (by omega)]
  rcases quarter with here | here | here | here <;> simp [here]

theorem byteReversed_not (word : Word) : byteReversed (~~~ word) = byteReversed word ^^^ 0xffffffff#32 := by
  apply BitVec.eq_of_getLsbD_eq
  intro i inside
  have ones : (0xffffffff#32).getLsbD i = true := by
    rw [show (0xffffffff#32) = BitVec.allOnes 32 by rfl, BitVec.getLsbD_allOnes, decide_eq_true inside]
  rw [byteReversed_bit _ inside, BitVec.getLsbD_not, BitVec.getLsbD_xor, byteReversed_bit _ inside, ones,
    decide_eq_true (by omega), Bool.true_and, Bool.xor_true]

theorem fcs_eq (input : List Byte) : fcs input = byteReversed (crc32 (messageOf input)) := by
  have mirrored := reverse_foldl_shiftInMirrored poly 0xffffffff#32 ((messageOf input).flatMap bitsOf)
  have polyReverse : poly.reverse = 0xedb88320#32 := by decide +kernel
  have onesReverse : (0xffffffff#32).reverse = 0xffffffff#32 := by decide +kernel
  rw [polyReverse, onesReverse, ← crcLoop_eq] at mirrored
  rw [fcs, crc32, byteReversed_not, ← mirrored, ← mirrored_octets]

def octetDigits (octet : Byte) : List Char :=
  [upperDigit (octet.extractLsb' 4 4), upperDigit (octet.extractLsb' 0 4)]

theorem format08X_byteReversed (word : Word) :
    format08X (byteReversed word) = (octets word).flatMap octetDigits := by
  -- the halves of the octet printed in place `i`
  have halves : ∀ i, i < 4 → ∀ k, k = 0 ∨ k = 4 →
      (byteReversed word).extractLsb' (24 - 8 * i + k) 4 =
        (word.extractLsb' (8 * i) 8).extractLsb' k 4 := by
    intro i small k half
    apply BitVec.eq_of_getLsbD_eq
    intro j inside
    rw [BitVec.getLsbD_extractLsb', BitVec.getLsbD_extractLsb', BitVec.getLsbD_extractLsb',
      byteReversed_bit word (by omega), decide_eq_true inside, decide_eq_true (by omega : k + j < 8),
      show 24 - 8 * ((24 - 8 * i + k + j) / 8) + (24 - 8 * i + k + j) % 8 = 8 * i + (k + j) by omega,
      Bool.true_and, Bool.true_and]
  have octet : ∀ i < 4, [upperDigit ((byteReversed word).extractLsb' (24 - 8 * i + 4) 4),
      upperDigit ((byteReversed word).extractLsb' (24 - 8 * i + 0) 4)] =
        octetDigits (word.extractLsb' (8 * i) 8) := by
    intro i small
    rw [halves i small 4 (.inr rfl), halves i small 0 (.inl rfl), octetDigits]
  rw [octets, List.flatMap_cons, List.flatMap_cons, List.flatMap_cons, List.flatMap_cons,
    List.flatMap_nil, ← octet 0 (by omega), ← octet 1 (by omega), ← octet 2 (by omega),
    ← octet 3 (by omega)]
  rfl

/-- For every input the program prints the octets of the CRC-32 of the bytes it spells, in
    the order they are sent. -/
theorem main_prints_fcs (input : List Byte) :
    fcs input = byteReversed (crc32 (messageOf input)) ∧
    main input = "Ethernet FCS = ".toList ++
      (octets (crc32 (messageOf input))).flatMap octetDigits ++ ['\n'] := by
  constructor
  · exact fcs_eq input
  · unfold main
    rw [fcs_eq input, format08X_byteReversed]

end TestPrograms.Crc32
