import Mathlib.Dynamics.PeriodicPts.Defs
import Mathlib.Data.Nat.Prime.Basic
import Mathlib.Tactic.NormNum.Prime
import TestPrograms.Foundations.Crc

/-! # The period of a CRC register

A register that is fed zeros is multiplied by `x` modulo the generator.  Powers of `x` are
multiplied as registers, so that a power is reached by squaring and the period of the register is
known from a few of them.  Two wrong bits cancel exactly if they are a multiple of it apart.
-/

namespace TestPrograms.Foundations.Crc

open Function

variable {w : Nat} (poly : BitVec w)

/-- A zero into the register. -/
def feed (crc : BitVec w) : BitVec w := shiftIn poly crc false

theorem feed_xor (x y : BitVec w) : feed poly (x ^^^ y) = feed poly x ^^^ feed poly y :=
  shiftIn_xor poly x y false false

theorem feed_zero : feed poly 0#w = 0#w := by
  simp [feed, shiftIn]

theorem foldl_zeros (crc : BitVec w) (count : Nat) :
    (List.replicate count false).foldl (shiftIn poly) crc = (feed poly)^[count] crc := by
  induction count generalizing crc with
  | zero => rfl
  | succ count ih => rw [List.replicate_succ, List.foldl_cons, ih, iterate_succ_apply, feed]

theorem feed_injective (top : poly.msb = true) : Injective (feed poly) := by
  intro x y same
  have zero : (List.replicate 1 false).foldl (shiftIn poly) (x ^^^ y) = 0 := by
    change feed poly (x ^^^ y) = 0
    rw [feed_xor, same, BitVec.xor_self]
    rfl
  exact BitVec.xor_eq_zero_iff.mp (zero_of_foldl_zeros top zero)

/-! ## Products of registers -/

/-- The bits of `a` from the lowest, which is the highest power, by Horner's rule. -/
def mulBits (a b : BitVec w) : Nat → BitVec w
  | 0 => 0#w
  | count + 1 => feed poly (mulBits a b count) ^^^ if a.getLsbD count then b else 0#w

def mul (a b : BitVec w) : BitVec w := mulBits poly a b w

theorem xor_ite (b : BitVec w) (p q : Bool) :
    (if (p ^^ q) = true then b else 0#w) = (if p then b else 0#w) ^^^ if q then b else 0#w := by
  cases p <;> cases q <;> simp

theorem feed_ite (b : BitVec w) (p : Bool) :
    feed poly (if p then b else 0#w) = if p then feed poly b else 0#w := by
  cases p
  · exact feed_zero poly
  · rfl

theorem mulBits_xor (a a' b : BitVec w) (count : Nat) :
    mulBits poly (a ^^^ a') b count = mulBits poly a b count ^^^ mulBits poly a' b count := by
  induction count with
  | zero => simp [mulBits]
  | succ count ih =>
    simp only [mulBits, ih, feed_xor, BitVec.getLsbD_xor, xor_ite]
    ac_rfl

theorem mulBits_zero (b : BitVec w) (count : Nat) : mulBits poly 0#w b count = 0#w := by
  induction count with
  | zero => rfl
  | succ count ih => simp [mulBits, ih, feed_zero]

theorem mulBits_feed (a b : BitVec w) (count : Nat) :
    mulBits poly a (feed poly b) count = feed poly (mulBits poly a b count) := by
  induction count with
  | zero => exact (feed_zero poly).symm
  | succ count ih => rw [mulBits, mulBits, ih, feed_xor, feed_ite]

theorem mulBits_shift (a b : BitVec w) (count : Nat) :
    mulBits poly a b (count + 1) =
      mulBits poly (a >>> 1) b count ^^^ if a.getLsbD 0 then (feed poly)^[count] b else 0#w := by
  induction count with
  | zero => simp [mulBits, feed_zero]
  | succ count ih =>
    rw [mulBits, ih, feed_xor, feed_ite, mulBits, BitVec.getLsbD_ushiftRight, Nat.add_comm 1,
      iterate_succ_apply']
    ac_rfl

theorem mul_iterate (a b : BitVec w) (n : Nat) :
    mul poly a ((feed poly)^[n] b) = (feed poly)^[n] (mul poly a b) := by
  induction n with
  | zero => rfl
  | succ n ih => rw [iterate_succ_apply', iterate_succ_apply', ← ih, mul, mulBits_feed, mul]

/-- The register `one` behaves as the number one, and the generator as its `w`-th power. -/
structure IsOne (one : BitVec w) : Prop where
  unit : mul poly one one = one
  generator : mul poly poly one = (feed poly)^[w] one

section

variable {poly} {one : BitVec w} (isOne : IsOne poly one)

include isOne

theorem IsOne.mul_feed (a : BitVec w) (n : Nat) :
    mul poly (feed poly a) ((feed poly)^[n] one) = feed poly (mul poly a ((feed poly)^[n] one)) := by
  have shifted : feed poly (mul poly a ((feed poly)^[n] one)) =
      mul poly (a >>> 1) ((feed poly)^[n] one) ^^^
        if a.getLsbD 0 then (feed poly)^[w] ((feed poly)^[n] one) else 0#w := by
    rw [mul, mul, ← mulBits_shift, mulBits, BitVec.getLsbD_of_ge a w (Nat.le_refl w)]
    simp
  have power : mul poly poly ((feed poly)^[n] one) = (feed poly)^[w] ((feed poly)^[n] one) := by
    rw [mul_iterate, isOne.generator, ← iterate_add_apply, ← iterate_add_apply, Nat.add_comm]
  rw [shifted, ← power, feed, shiftIn, mul, mulBits_xor, Bool.xor_false]
  cases a.getLsbD 0
  · simp [mul, mulBits_zero]
  · simp [mul]

/-- Powers of `x` multiply by adding their exponents. -/
theorem IsOne.mul_powers (m n : Nat) :
    mul poly ((feed poly)^[m] one) ((feed poly)^[n] one) = (feed poly)^[m + n] one := by
  induction m with
  | zero => rw [iterate_zero, id, mul_iterate, isOne.unit, Nat.zero_add]
  | succ m ih => rw [iterate_succ_apply', isOne.mul_feed, ih, Nat.succ_add, iterate_succ_apply']

end

/-- The power of `x` whose exponent has these binary digits, the highest first. -/
def power (one : BitVec w) (digits : List Bool) : BitVec w :=
  digits.foldl (fun value digit =>
    let square := mul poly value value
    if digit then feed poly square else square) one

def exponent (digits : List Bool) : Nat :=
  digits.foldl (fun number digit => 2 * number + digit.toNat) 0

theorem IsOne.power_eq {poly one : BitVec w} (isOne : IsOne poly one) (digits : List Bool) :
    power poly one digits = (feed poly)^[exponent digits] one := by
  have from' : ∀ number, digits.foldl (fun value digit =>
      let square := mul poly value value
      if digit then feed poly square else square) ((feed poly)^[number] one) =
        (feed poly)^[digits.foldl (fun number digit => 2 * number + digit.toNat) number] one := by
    induction digits with
    | nil => exact fun _ => rfl
    | cons digit digits ih =>
      intro number
      rw [List.foldl_cons, List.foldl_cons, isOne.mul_powers, ← Nat.two_mul]
      cases digit
      · exact ih _
      · rw [← ih]
        simp only [if_true, Bool.toNat_true, iterate_succ_apply']
  exact from' 0

/-! ## Periods -/

/-- A number of steps that brings a point back, but no largest part of it does, divides all the
    others that do. -/
theorem iterate_eq_iff_dvd {α : Type} {f : α → α} {x : α} {n : Nat}
    (returns : f^[n] x = x) (parts : ∀ p, p.Prime → p ∣ n → f^[n / p] x ≠ x) (count : Nat) :
    f^[count] x = x ↔ n ∣ count := by
  have divides : minimalPeriod f x ∣ n := IsPeriodicPt.minimalPeriod_dvd returns
  have same : minimalPeriod f x = n := by
    obtain ⟨a, product⟩ := divides
    by_contra smaller
    have part : a ≠ 1 := by
      rintro rfl
      exact smaller (by rw [product, Nat.mul_one])
    obtain ⟨b, factor⟩ := a.minFac_dvd
    have prime := Nat.minFac_prime part
    have quotient : n / a.minFac = minimalPeriod f x * b := by
      have split : n = minimalPeriod f x * b * a.minFac := by
        rw [product, Nat.mul_assoc, Nat.mul_comm b, ← factor]
      rw [split, Nat.mul_div_cancel _ prime.pos]
    refine parts a.minFac prime ?_ ?_
    · rw [product]
      exact Dvd.dvd.mul_left a.minFac_dvd _
    · rw [quotient]
      exact (isPeriodicPt_minimalPeriod f x).mul_const b
  rw [← same]
  exact isPeriodicPt_iff_minimalPeriod_dvd

/-! ## Two wrong bits -/

theorem shiftIn_true (positive : 0 < w) (crc : BitVec w) :
    shiftIn poly crc true = feed poly (crc ^^^ 1#w) := by
  have linear := shiftIn_xor poly (crc ^^^ 1#w) 1#w false true
  have own : shiftIn poly 1#w true = 0#w := by
    have moved : 1#w >>> 1 = 0#w := by
      apply BitVec.eq_of_getLsbD_eq
      intro i _
      simp [BitVec.getLsbD_one]
    simp [shiftIn, positive, moved]
  rwa [own, BitVec.xor_assoc, BitVec.xor_self, BitVec.xor_zero, BitVec.xor_zero] at linear

theorem feed_eq_zero_iff {poly : BitVec w} (top : poly.msb = true) (crc : BitVec w) (count : Nat) :
    (feed poly)^[count] crc = 0#w ↔ crc = 0#w := by
  have still : (feed poly)^[count] 0#w = 0#w := by
    induction count with
    | zero => rfl
    | succ count ih => rw [iterate_succ_apply, feed_zero, ih]
  constructor
  · intro zero
    exact (feed_injective poly top).iterate count (zero.trans still.symm)
  · rintro rfl
    exact still

/-- Two bits of which the later one comes `count + 1` places behind the other. -/
theorem foldl_pair_eq_zero_iff {poly : BitVec w} (positive : 0 < w) (top : poly.msb = true)
    (before count behind : Nat) :
    (List.replicate before false ++ true :: (List.replicate count false ++
        true :: List.replicate behind false)).foldl (shiftIn poly) 0 = 0 ↔
      (feed poly)^[count + 1] 1#w = 1#w := by
  rw [List.foldl_append, foldl_shiftIn_zeros, List.foldl_cons, List.foldl_append, List.foldl_cons,
    foldl_zeros, foldl_zeros, shiftIn_true poly positive, shiftIn_true poly positive,
    ← iterate_succ_apply, ← iterate_succ_apply]
  refine (feed_eq_zero_iff top _ _).trans ?_
  rw [BitVec.xor_eq_zero_iff]
  exact iff_of_eq (congrArg (fun crc => (feed poly)^[count + 1] crc = 1#w) BitVec.zero_xor)

theorem eq_pair {bits : List Bool} {i j : Nat} (order : i < j) (inside : j < bits.length)
    (only : ∀ k, bits.getD k false = decide (k = i ∨ k = j)) :
    bits = List.replicate i false ++ true :: (List.replicate (j - i - 1) false ++
      true :: List.replicate (bits.length - j - 1) false) := by
  apply List.ext_getElem
  · simp only [List.length_append, List.length_replicate, List.length_cons]
    omega
  · intro k below _
    have bit := only k
    rw [List.getD_eq_getElem _ _ below] at bit
    rw [bit]
    grind

/-- A register tells apart messages that differ in two bits, exactly if the bits are not a
    multiple of its period apart. -/
theorem foldl_eq_pair_iff {poly crc : BitVec w} (positive : 0 < w) (top : poly.msb = true)
    {bits bits' : List Bool} {i j : Nat} (same : bits.length = bits'.length) (order : i < j)
    (inside : j < bits.length) (differ : ∀ k, bits[k]? ≠ bits'[k]? ↔ k = i ∨ k = j) :
    bits.foldl (shiftIn poly) crc = bits'.foldl (shiftIn poly) crc ↔
      (feed poly)^[j - i] 1#w = 1#w := by
  have xor_ne (a b : Bool) : (a ^^ b) = decide (¬ a = b) := by
    cases a <;> cases b <;> rfl
  have only (k : Nat) : (bits.zipWith xor bits').getD k false = decide (k = i ∨ k = j) := by
    have place := differ k
    rw [getD_zipWith_xor same]
    by_cases below : k < bits.length
    · rw [List.getElem?_eq_getElem below, List.getElem?_eq_getElem (by omega), Ne,
        Option.some.injEq] at place
      rw [List.getD_eq_getElem _ _ below, List.getD_eq_getElem _ _ (by omega), ← decide_eq_decide.mpr place]
      exact xor_ne _ _
    · rw [List.getD_eq_default _ _ (by omega), List.getD_eq_default _ _ (by omega),
        decide_eq_false (by omega), Bool.xor_self]
  have linear := foldl_shiftIn_xor poly crc crc same
  have length : (bits.zipWith xor bits').length = bits.length := by
    rw [List.length_zipWith]
    omega
  rw [BitVec.xor_self, eq_pair order (by omega) only] at linear
  rw [← BitVec.xor_eq_zero_iff, ← linear]
  refine (foldl_pair_eq_zero_iff positive top i (j - i - 1) _).trans ?_
  rw [show j - i - 1 + 1 = j - i by omega]

/-! ## CRC-32 -/

/-- The binary digits of `number`, the highest first. -/
def binary (count number : Nat) : List Bool :=
  (List.range count).map fun i => number.testBit (count - 1 - i)

theorem crc32_isOne : IsOne 0xedb88320#32 0x80000000#32 where
  unit := by decide +kernel
  generator := by decide +kernel

theorem crc32_power (number : Nat) (fits : exponent (binary 32 number) = number) :
    (feed 0xedb88320#32)^[number] 0x80000000#32 =
      power 0xedb88320#32 0x80000000#32 (binary 32 number) := by
  rw [crc32_isOne.power_eq, fits]

/-- The generator of CRC-32 is primitive. -/
theorem crc32_period (count : Nat) :
    (feed 0xedb88320#32)^[count] 0x80000000#32 = 0x80000000#32 ↔ 4294967295 ∣ count := by
  refine iterate_eq_iff_dvd ?_ (fun p prime divides => ?_) count
  · rw [crc32_power _ (by decide +kernel)]
    decide +kernel
  · have factor : p = 3 ∨ p = 5 ∨ p = 17 ∨ p = 257 ∨ p = 65537 := by
      have same {q : Nat} (isPrime : q.Prime) (divides : p ∣ q) : p = q :=
        (Nat.prime_dvd_prime_iff_eq prime isPrime).mp divides
      rw [show 4294967295 = 3 * (5 * (17 * (257 * 65537))) from rfl, prime.dvd_mul, prime.dvd_mul,
        prime.dvd_mul, prime.dvd_mul] at divides
      exact divides.imp (same (by norm_num)) <| .imp (same (by norm_num)) <|
        .imp (same (by norm_num)) <| .imp (same (by norm_num)) (same (by norm_num))
    rcases factor with rfl | rfl | rfl | rfl | rfl
    · rw [crc32_power _ (by decide +kernel)]
      decide +kernel
    · rw [crc32_power _ (by decide +kernel)]
      decide +kernel
    · rw [crc32_power _ (by decide +kernel)]
      decide +kernel
    · rw [crc32_power _ (by decide +kernel)]
      decide +kernel
    · rw [crc32_power _ (by decide +kernel)]
      decide +kernel

/-- Two wrong bits go unnoticed only at a multiple of `2 ^ 32 - 1` from each other. -/
theorem crc32_pair_iff {message message' : List (BitVec 8)} {i j : Nat}
    (same : message.length = message'.length) (order : i < j) (inside : j < 8 * message.length)
    (differ : ∀ k, (message.flatMap bitsOf)[k]? ≠ (message'.flatMap bitsOf)[k]? ↔ k = i ∨ k = j) :
    crc32 message = crc32 message' ↔ 4294967295 ∣ j - i := by
  have lengths : (message.flatMap bitsOf).length = (message'.flatMap bitsOf).length := by
    rw [length_flatMap_bitsOf, length_flatMap_bitsOf, same]
  have top : (0xedb88320#32).msb = true := by decide
  have last : 1#32 = (feed 0xedb88320#32)^[31] 0x80000000#32 := by decide +kernel
  rw [crc32, crc32, BitVec.not_inj,
    foldl_eq_pair_iff (by decide) top lengths order (by rwa [length_flatMap_bitsOf]) differ, last,
    ← iterate_add_apply, Nat.add_comm, iterate_add_apply,
    ((feed_injective _ top).iterate 31).eq_iff, crc32_period]

end TestPrograms.Foundations.Crc
