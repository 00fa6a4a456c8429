import TestPrograms.Foundations.Memory

/-! # Hexadecimal text

The sixteen digits in either case, and byte strings as pairs of them.
-/

namespace TestPrograms.Foundations

def hexDigit? (c : Byte) : Option Byte :=
  if 0x30#8 ≤ c ∧ c ≤ 0x39#8 then some (c - 0x30#8)
  else if 0x41#8 ≤ c ∧ c ≤ 0x46#8 then some (c - 0x41#8 + 10#8)
  else if 0x61#8 ≤ c ∧ c ≤ 0x66#8 then some (c - 0x61#8 + 10#8)
  else none

def nibbles (byte : Byte) : List Byte := [byte >>> 4, byte &&& 0xf#8]

/-- The bytes that digit values spell in pairs; an odd last one is dropped. -/
def pairDigits : List Byte → List Byte
  | high :: low :: digits => (high <<< 4 ||| low) :: pairDigits digits
  | _ => []

theorem nibbles_pair (byte : Byte) : (byte >>> 4) <<< 4 ||| (byte &&& 0xf#8) = byte := by
  revert byte
  decide

theorem pairDigits_nibbles (bytes : List Byte) : pairDigits (bytes.flatMap nibbles) = bytes := by
  induction bytes with
  | nil => rfl
  | cons byte bytes ih =>
    simp only [List.flatMap_cons, nibbles, List.cons_append, List.nil_append, pairDigits, ih,
      nibbles_pair]

theorem pairDigits_length (digits : List Byte) : (pairDigits digits).length = digits.length / 2 := by
  induction digits using pairDigits.induct with
  | case1 high low digits ih =>
    simp only [pairDigits, List.length_cons, ih]
    omega
  | case2 digits short =>
    cases digits with
    | nil => rfl
    | cons digit digits =>
      cases digits with
      | nil => simp [pairDigits]
      | cons low digits => exact absurd rfl (short digit low digits)

theorem pairDigits_take (digits : List Byte) (count : Nat) :
    (pairDigits digits).take count = pairDigits (digits.take (2 * count)) := by
  induction count generalizing digits with
  | zero => rfl
  | succ count ih =>
    rw [show 2 * (count + 1) = 2 * count + 1 + 1 by omega]
    cases digits with
    | nil => rfl
    | cons high digits =>
      cases digits with
      | nil => simp [pairDigits]
      | cons low digits => simp only [pairDigits, List.take_succ_cons, ih]

/-! ## Numbers of a fixed width -/

/-- The number that digits spell, the first being the highest. -/
def hexNumber (digits : List Byte) : Nat :=
  digits.foldl (fun number c => 16 * number + ((hexDigit? c).getD 0#8).toNat) 0

def upperDigit (value : Nat) : Char :=
  if value < 10 then Char.ofNat (0x30 + value) else Char.ofNat (0x41 + (value - 10))

-- `%0wX`
def hexText : Nat → Nat → List Char
  | 0, _ => []
  | width + 1, value => hexText width (value / 16) ++ [upperDigit (value % 16)]

theorem upperDigit_inj {a b : Nat} (left : a < 16) (right : b < 16)
    (same : upperDigit a = upperDigit b) : a = b := by
  have all : ∀ a b : Fin 16, upperDigit a = upperDigit b → a = b := by decide
  exact congrArg Fin.val (all ⟨a, left⟩ ⟨b, right⟩ same)

theorem hexText_inj {width a b : Nat} (left : a < 16 ^ width) (right : b < 16 ^ width)
    (same : hexText width a = hexText width b) : a = b := by
  induction width generalizing a b with
  | zero => omega
  | succ width ih =>
    rw [pow_succ] at left right
    obtain ⟨front, last⟩ := List.append_inj' same rfl
    have quotients := ih (by omega) (by omega) front
    have digits := upperDigit_inj (Nat.mod_lt _ (by decide)) (Nat.mod_lt _ (by decide))
      (List.singleton_inj.mp last)
    omega

end TestPrograms.Foundations
