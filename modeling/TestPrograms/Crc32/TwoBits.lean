import TestPrograms.Crc32.Detection
import TestPrograms.Foundations.CrcPeriod

/-! # Two wrong bits

The generator of the program is primitive: fed with zeros its register takes all values but
zero before it comes back.  Two wrong bits are noticed unless they are that far apart.
-/

namespace TestPrograms.Crc32

open TestPrograms.Foundations
open TestPrograms.Foundations.Crc

/-- Texts for messages of one length that differ in two bits print the same sequence if and only
    if the bits are a multiple of `2 ^ 32 - 1` apart; no message below half a gigabyte is so
    long. -/
theorem two_bits_printed {text text' : List Byte} {i j : Nat}
    (same : (messageOf text).length = (messageOf text').length) (order : i < j)
    (inside : j < 8 * (messageOf text).length)
    (differ : ∀ k, ((messageOf text).flatMap bitsOf)[k]? ≠ ((messageOf text').flatMap bitsOf)[k]? ↔
      k = i ∨ k = j) :
    main text = main text' ↔ 4294967295 ∣ j - i := by
  rw [← crc32_pair_iff same order inside differ]
  constructor
  · intro printed
    have digits : format08X (fcs text) = format08X (fcs text') :=
      List.append_cancel_left (List.append_cancel_right printed)
    have sequences := format08X_injective digits
    rw [fcs_eq, fcs_eq] at sequences
    exact byteReversed_injective sequences
  · intro collide
    have sequences : fcs text = fcs text' := by rw [fcs_eq, fcs_eq, collide]
    unfold main
    rw [sequences]

/-- The texts 00 and 81, whose first and last bits differ. -/
theorem two_bits_printed_sample :
    main [0x30#8, 0x30#8] = main [0x38#8, 0x31#8] ↔ 4294967295 ∣ 7 - 0 := by
  have lengths : (messageOf [0x30#8, 0x30#8]).length = (messageOf [0x38#8, 0x31#8]).length := by decide
  have inside : 7 < 8 * (messageOf [0x30#8, 0x30#8]).length := by decide
  have differ : ∀ k, ((messageOf [0x30#8, 0x30#8]).flatMap bitsOf)[k]? ≠
      ((messageOf [0x38#8, 0x31#8]).flatMap bitsOf)[k]? ↔ k = 0 ∨ k = 7 := by
    intro k
    by_cases short : k < 8
    · have all : ∀ k < 8, ((messageOf [0x30#8, 0x30#8]).flatMap bitsOf)[k]? ≠
          ((messageOf [0x38#8, 0x31#8]).flatMap bitsOf)[k]? ↔ k = 0 ∨ k = 7 := by decide
      exact all k short
    · rw [List.getElem?_eq_none (Nat.le_trans (by decide) (Nat.le_of_not_lt short)),
        List.getElem?_eq_none (Nat.le_trans (by decide) (Nat.le_of_not_lt short))]
      exact iff_of_false (fun differ => differ rfl) (by omega)
  exact two_bits_printed lengths (by decide) inside differ

end TestPrograms.Crc32
