import Mathlib.Data.List.TakeWhile
import TestPrograms.Crc32.FrameCheck

/-! # What the printed sequence detects

The sequence that was printed, read back behind its own text, always leaves the same
number; texts that differ in a burst of at most 32 bits never print the same one.
-/

namespace TestPrograms.Crc32

open TestPrograms.Foundations
open TestPrograms.Foundations.Crc

/-! ## Reading a printed sequence back -/

/-- The byte a character is read as. -/
def charByte (c : Char) : Byte := BitVec.ofNat 8 c.toNat

theorem digitsOf_eq {input : List Byte} (whole : bang ∉ input) :
    digitsOf input = input.filterMap hexDigit? := by
  have all : ∀ c ∈ input, decide (c ≠ bang) = true := fun c member =>
    decide_eq_true fun stop => whole (stop ▸ member)
  rw [digitsOf, List.takeWhile_eq_self_iff.mpr all]

theorem filterMap_isxdigit (input : List Byte) :
    (input.filter isxdigit).filterMap hexDigit? = input.filterMap hexDigit? := by
  rw [List.filterMap_filter]
  apply List.filterMap_congr
  intro c _
  rw [isxdigit_iff]
  cases hexDigit? c <;> rfl

theorem length_digitsOf {input : List Byte} (whole : bang ∉ input) :
    (digitsOf input).length = (input.filter isxdigit).length := by
  rw [digitsOf_eq whole]
  induction input with
  | nil => rfl
  | cons c input ih =>
    have shorter := ih fun member => whole (List.mem_cons_of_mem c member)
    have digit := isxdigit_iff c
    cases spelled : hexDigit? c with
    | none => simp [spelled, digit, shorter]
    | some value => simp [spelled, digit, shorter]

theorem pairDigits_append {digits : List Byte} (even : digits.length % 2 = 0) (more : List Byte) :
    pairDigits (digits ++ more) = pairDigits digits ++ pairDigits more := by
  induction digits using pairDigits.induct with
  | case1 high low digits ih =>
    rw [List.length_cons, List.length_cons] at even
    rw [List.cons_append, List.cons_append, pairDigits, pairDigits, ih (by omega), List.cons_append]
  | case2 digits short =>
    cases digits with
    | nil => rfl
    | cons digit digits =>
      cases digits with
      | nil => cases even
      | cons => exact (short _ _ _ rfl).elim

theorem octetDigits_read : ∀ octet : Byte,
    ((octetDigits octet).map charByte).filterMap hexDigit? = nibbles octet := by
  decide +kernel

theorem octets_read (word : Word) :
    (((octets word).flatMap octetDigits).map charByte).filterMap hexDigit? =
      (octets word).flatMap nibbles := by
  rw [List.map_flatMap, List.filterMap_flatMap]
  exact List.flatMap_congr fun octet _ => octetDigits_read octet

theorem octets_bits (word : Word) :
    (octets word).flatMap bitsOf = (List.range 32).map word.getLsbD := by
  have octet (k : Nat) :
      bitsOf (word.extractLsb' k 8) = (List.range 8).map fun i => word.getLsbD (k + i) := by
    apply List.map_congr_left
    intro i inside
    rw [BitVec.getLsbD_extractLsb', decide_eq_true (List.mem_range.mp inside), Bool.true_and]
  rw [octets, List.flatMap_cons, List.flatMap_cons, List.flatMap_cons, List.flatMap_cons,
    List.flatMap_nil, octet, octet, octet, octet]
  rfl

/-- A text and the sequence printed for it spell the message and the octets of its CRC. -/
theorem messageOf_append {text tail : List Byte} (whole : bang ∉ text) (whole' : bang ∉ tail)
    (even : (text.filter isxdigit).length % 2 = 0)
    (sent : tail.filter isxdigit = (format08X (fcs text)).map charByte) :
    messageOf (text ++ tail) = messageOf text ++ octets (crc32 (messageOf text)) := by
  have both : bang ∉ text ++ tail := fun member => (List.mem_append.mp member).elim whole whole'
  have trailer : tail.filterMap hexDigit? = (octets (crc32 (messageOf text))).flatMap nibbles := by
    rw [← filterMap_isxdigit, sent, fcs_eq, format08X_byteReversed, octets_read]
  rw [messageOf, digitsOf_eq both, List.filterMap_append, ← digitsOf_eq whole, trailer,
    pairDigits_append (by rw [length_digitsOf whole, even]), pairDigits_nibbles]
  rfl

/-- Whatever the text, behind it the eight digits printed for it make the program print
    `1CDF4421`. -/
theorem residue_printed {text tail : List Byte} (digits : List Char) (whole : bang ∉ text)
    (whole' : bang ∉ tail) (even : (text.filter isxdigit).length % 2 = 0)
    (printed : main text = "Ethernet FCS = ".toList ++ digits ++ ['\n'])
    (follows : tail.filter isxdigit = digits.map charByte) :
    main (text ++ tail) = "Ethernet FCS = 1CDF4421\n".toList := by
  have digitsEq : digits = format08X (fcs text) :=
    (List.append_cancel_left (List.append_cancel_right printed)).symm
  have message := messageOf_append whole whole' even (digitsEq ▸ follows)
  unfold main
  rw [fcs_eq, message, crc32_residue (octets_bits _)]
  decide +kernel

/-- The text 41 prints 8B9ED9D3, read back here behind a line feed. -/
theorem residue_printed_sample :
    main ([0x34#8, 0x31#8] ++ (0x0a#8 :: "8B9ED9D3".toList.map charByte)) =
      "Ethernet FCS = 1CDF4421\n".toList :=
  residue_printed "8B9ED9D3".toList (by decide) (by decide) (by decide)
    (by unfold main; rw [fcs_eq]; decide +kernel) (by decide)

/-! ## Bursts -/

theorem upperDigit_injective : ∀ digit digit' : BitVec 4, upperDigit digit = upperDigit digit' →
    digit = digit' := by
  decide +kernel

theorem format08X_injective {word word' : Word} (same : format08X word = format08X word') :
    word = word' := by
  apply BitVec.eq_of_getLsbD_eq
  intro i inside
  have place : 7 - i / 4 < 8 := by omega
  have digit := congrArg (fun digits => digits[7 - i / 4]?) same
  simp only [format08X, List.getElem?_map, List.getElem?_range place, Option.map_some,
    Option.some.injEq] at digit
  have bit := congrArg (fun nibble => nibble.getLsbD (i % 4)) (upperDigit_injective _ _ digit)
  simp only [BitVec.getLsbD_extractLsb', decide_eq_true (Nat.mod_lt i (by decide : 0 < 4)),
    Bool.true_and] at bit
  rwa [show 28 - 4 * (7 - i / 4) + i % 4 = i by omega] at bit

theorem byteReversed_injective {word word' : Word} (same : byteReversed word = byteReversed word') :
    word = word' := by
  apply BitVec.eq_of_getLsbD_eq
  intro i inside
  have bit := congrArg (fun word => word.getLsbD (24 - 8 * (i / 8) + i % 8)) same
  simp only [byteReversed_bit _ (by omega : 24 - 8 * (i / 8) + i % 8 < 32)] at bit
  rwa [show 24 - 8 * ((24 - 8 * (i / 8) + i % 8) / 8) + (24 - 8 * (i / 8) + i % 8) % 8 = i by omega]
    at bit

/-- Texts for messages of one length whose bits differ, but in 32 consecutive places only,
    print different sequences. -/
theorem burst_printed {text text' : List Byte} (start : Nat)
    (same : (messageOf text).length = (messageOf text').length)
    (differ : (messageOf text).flatMap bitsOf ≠ (messageOf text').flatMap bitsOf)
    (burst : ∀ i, i < start ∨ start + 32 ≤ i →
      ((messageOf text).flatMap bitsOf)[i]? = ((messageOf text').flatMap bitsOf)[i]?) :
    main text ≠ main text' := by
  intro collide
  have digits : format08X (fcs text) = format08X (fcs text') :=
    List.append_cancel_left (List.append_cancel_right collide)
  have sequences := format08X_injective digits
  rw [fcs_eq, fcs_eq] at sequences
  exact differ (crc32_burst same burst (byteReversed_injective sequences))

theorem burst_printed_sample : main [0x30#8, 0x31#8] ≠ main [0x31#8, 0x30#8] :=
  burst_printed 0 (by decide) (by decide) fun i outside => by
    have behind : 8 ≤ i := by omega
    rw [List.getElem?_eq_none (Nat.le_trans (by decide) behind),
      List.getElem?_eq_none (Nat.le_trans (by decide) behind)]

end TestPrograms.Crc32
