import Mathlib.Data.List.TakeWhile

/-! # Numbers in decimal

A run of digits at the start of a text, its value, and what follows it.  The run may have
leading zeros, and is read to its end.
-/

namespace TestPrograms.Foundations.Decimal

/-- The number at the start of the text and the rest, where a digit is first. -/
def read (text : List Char) : Option (Nat × List Char) :=
  if text.head?.any Char.isDigit then
    some (Nat.ofDigitChars 10 (text.takeWhile Char.isDigit) 0, text.dropWhile Char.isDigit)
  else none

/-- A non-empty run of digits. -/
structure IsNumeral (digits : List Char) : Prop where
  some : digits ≠ []
  all : ∀ c ∈ digits, c.isDigit

/-- No digit is next. -/
def Ends (rest : List Char) : Prop := rest.head?.any Char.isDigit = false

theorem ends_cons {c : Char} {rest : List Char} : Ends (c :: rest) ↔ ¬ c.isDigit := by simp [Ends]

theorem Ends.not_digit {rest : List Char} (ends : Ends rest) {c : Char} (first : c ∈ rest.head?) :
    ¬ c.isDigit := by
  rw [Ends, Option.mem_def.mp first] at ends
  simpa using ends

theorem takeWhile_ends {rest : List Char} (ends : Ends rest) :
    rest.takeWhile Char.isDigit = [] ∧ rest.dropWhile Char.isDigit = rest := by
  cases rest with
  | nil => exact ⟨rfl, rfl⟩
  | cons c rest =>
    have other : ¬ c.isDigit = true := ends_cons.mp ends
    exact ⟨List.takeWhile_cons_of_neg other, List.dropWhile_cons_of_neg other⟩

theorem read_append {digits rest : List Char} (numeral : IsNumeral digits) (ends : Ends rest) :
    read (digits ++ rest) = some (Nat.ofDigitChars 10 digits 0, rest) := by
  have starts : (digits ++ rest).head?.any Char.isDigit = true := by
    obtain ⟨c, digits, rfl⟩ := List.exists_cons_of_ne_nil numeral.some
    exact numeral.all c List.mem_cons_self
  obtain ⟨none, kept⟩ := takeWhile_ends ends
  rw [read, if_pos starts, List.takeWhile_append_of_pos numeral.all, List.dropWhile_append_of_pos numeral.all,
    none, kept, List.append_nil]

theorem toDigits_isNumeral (n : Nat) : IsNumeral (Nat.toDigits 10 n) where
  some := Nat.toDigits_ne_nil
  all _ member := Nat.isDigit_of_mem_toDigits (by decide) (by decide) member

theorem read_toDigits (n : Nat) {rest : List Char} (ends : Ends rest) :
    read (Nat.toDigits 10 n ++ rest) = some (n, rest) := by
  rw [read_append (toDigits_isNumeral n) ends, Nat.ofDigitChars_ten_toDigits]

end TestPrograms.Foundations.Decimal
