import Mathlib.Data.List.TakeWhile
import Mathlib.Tactic.Ring
import TestPrograms.Foundations.Hex

/-! # `strtoul` and `strtoll` in base 16

White space, a sign, `0x`, and then the digits up to the first character that is none.  The
two read the same number and differ in what becomes of one that is too large: each gives
the largest of its type.
-/

namespace TestPrograms.Foundations.Strtol

/-- `isspace` of the C locale. -/
def isSpace (c : Byte) : Bool := 0x09#8 ≤ c ∧ c ≤ 0x0d#8 ∨ c = 0x20#8

def isSign (c : Byte) : Bool := c = 0x2b#8 ∨ c = 0x2d#8

def isHex (c : Byte) : Bool := (hexDigit? c).isSome

/-- With no digit after the `x` only the `0` is read, a number that is nought as well. -/
def skipRadix (text : List Byte) : List Byte :=
  if text.head? = some 0x30#8 ∧ (text[1]? = some 0x78#8 ∨ text[1]? = some 0x58#8) then text.drop 2
  else text

/-- Whether there is a minus, and the number after it. -/
def number (text : List Byte) : Bool × Nat :=
  let text := text.dropWhile isSpace
  let unsigned := if text.head?.any isSign then text.tail else text
  (text.head? = some 0x2d#8, hexNumber ((skipRadix unsigned).takeWhile isHex))

def strtoul (text : List Byte) : BitVec 64 :=
  let (negative, n) := number text
  if 2 ^ 64 ≤ n then BitVec.allOnes 64
  else if negative then -BitVec.ofNat 64 n
  else BitVec.ofNat 64 n

def strtoll (text : List Byte) : BitVec 64 :=
  let (negative, n) := number text
  let value : Int := if negative then -n else n
  BitVec.ofInt 64 (max (-2 ^ 63) (min (2 ^ 63 - 1) value))

/-! ## Texts of a number -/

structure IsNumeral (digits : List Byte) : Prop where
  some : digits ≠ []
  all : ∀ c ∈ digits, isHex c

/-- The text is a number in hexadecimal, with or without `0x`. -/
inductive Spells : List Byte → Nat → Prop where
  | digits {digits : List Byte} (numeral : IsNumeral digits) : Spells digits (hexNumber digits)
  | radix {x : Byte} {digits : List Byte} (letter : x = 0x78#8 ∨ x = 0x58#8)
      (numeral : IsNumeral digits) : Spells (0x30#8 :: x :: digits) (hexNumber digits)

theorem Spells.of_all {digits : List Byte} (some : digits ≠ []) (all : digits.all isHex) :
    Spells digits (hexNumber digits) := .digits ⟨some, List.all_eq_true.mp all⟩

theorem hex_plain : ∀ c : Byte, isHex c →
    isSpace c = false ∧ isSign c = false ∧ c ≠ 0x2d#8 ∧ c ≠ 0x78#8 ∧ c ≠ 0x58#8 := by decide

theorem takeWhile_numeral {digits : List Byte} (numeral : IsNumeral digits) :
    digits.takeWhile isHex = digits := List.takeWhile_eq_self_iff.mpr numeral.all

theorem skipRadix_numeral {digits : List Byte} (numeral : IsNumeral digits) :
    skipRadix digits = digits := by
  rw [skipRadix, if_neg]
  rintro ⟨-, x | x⟩
  · exact (hex_plain _ (numeral.all _ (List.mem_of_getElem? x))).2.2.2.1 rfl
  · exact (hex_plain _ (numeral.all _ (List.mem_of_getElem? x))).2.2.2.2 rfl

/-- A text that begins with a digit has no white space or sign to skip. -/
theorem number_cons {c : Byte} (digit : isHex c) (text : List Byte) :
    number (c :: text) = (false, hexNumber ((skipRadix (c :: text)).takeWhile isHex)) := by
  obtain ⟨noSpace, noSign, noMinus, -, -⟩ := hex_plain c digit
  have starts : (c :: text).dropWhile isSpace = c :: text :=
    List.dropWhile_cons_of_neg (by simp [noSpace])
  simp only [number, starts, List.head?_cons, Option.any_some, noSign, Option.some.injEq, noMinus,
    decide_false, Bool.false_eq_true, if_false]

theorem Spells.number {text : List Byte} {n : Nat} (spells : Spells text n) :
    number text = (false, n) := by
  cases spells with
  | digits numeral =>
    have kept := skipRadix_numeral numeral
    have whole := takeWhile_numeral numeral
    obtain ⟨c, rest, rfl⟩ := List.exists_cons_of_ne_nil numeral.some
    rw [number_cons (numeral.all c List.mem_cons_self), kept, whole]
  | @radix x digits letter numeral =>
    have skipped : skipRadix (0x30#8 :: x :: digits) = digits := by
      rw [skipRadix, if_pos ⟨rfl, letter.imp (congrArg _) (congrArg _)⟩]
      rfl
    rw [number_cons (by decide), skipped, takeWhile_numeral numeral]

theorem Spells.strtoul {text : List Byte} {n : Nat} (spells : Spells text n) (word : n < 2 ^ 64) :
    (strtoul text).toNat = n := by
  simp only [Strtol.strtoul, spells.number, if_neg (not_le.mpr word), Bool.false_eq_true, if_false]
  rw [BitVec.toNat_ofNat, Nat.mod_eq_of_lt word]

theorem Spells.strtoll {text : List Byte} {n : Nat} (spells : Spells text n) :
    (strtoll text).toNat = min n (2 ^ 63 - 1) := by
  simp only [Strtol.strtoll, spells.number, Bool.false_eq_true, if_false]
  rw [BitVec.toNat_ofInt]
  omega

/-! ## Every number has one -/

theorem hexNumber_concat (digits : List Byte) (c : Byte) :
    hexNumber (digits ++ [c]) = 16 * hexNumber digits + ((hexDigit? c).getD 0#8).toNat := by
  rw [hexNumber, List.foldl_append]
  rfl

theorem exists_digit : ∀ value : Fin 16, ∃ c : Byte, hexDigit? c = some (BitVec.ofNat 8 value) := by
  decide

theorem exists_numeral (n : Nat) : ∃ digits, IsNumeral digits ∧ hexNumber digits = n := by
  induction n using Nat.strong_induction_on with
  | h n ih =>
    obtain ⟨c, last⟩ := exists_digit ⟨n % 16, Nat.mod_lt _ (by decide)⟩
    have hex : isHex c := by rw [isHex, last]; rfl
    have value : ((hexDigit? c).getD 0#8).toNat = n % 16 := by
      have narrow : n % 16 < 2 ^ 8 := by omega
      rw [last, Option.getD_some, BitVec.toNat_ofNat, Nat.mod_eq_of_lt narrow]
    by_cases small : n < 16
    · refine ⟨[c], ⟨List.cons_ne_nil _ _, List.forall_mem_singleton.mpr hex⟩, ?_⟩
      have spelled := hexNumber_concat [] c
      rw [value, Nat.mod_eq_of_lt small] at spelled
      exact spelled.trans (Nat.zero_add n)
    · obtain ⟨digits, numeral, upper⟩ := ih (n / 16) (by omega)
      refine ⟨digits ++ [c], ⟨by simp, ?_⟩, ?_⟩
      · exact List.forall_mem_append.mpr ⟨numeral.all, List.forall_mem_singleton.mpr hex⟩
      · rw [hexNumber_concat, value, upper]
        omega

theorem exists_spells (n : Nat) : ∃ text, Spells text n := by
  obtain ⟨digits, numeral, rfl⟩ := exists_numeral n
  exact ⟨digits, .digits numeral⟩

end TestPrograms.Foundations.Strtol
