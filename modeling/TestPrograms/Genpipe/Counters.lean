import TestPrograms.Foundations.Decimal
import TestPrograms.Linux.UserCopy
import Mathlib.Algebra.BigOperators.Group.List.Basic

/-! # The counters

`genpipe_read` adds the counters of all processors in three `int`s and prints these as if they
were long.  The upper half of the register that an `int` is passed in is not defined: it is a
parameter.
-/

namespace TestPrograms.Genpipe

open TestPrograms.Foundations
open TestPrograms.Linux

structure Counters (α : Type) where
  rxCount : α
  allocCount : α
  freeCount : α
  deriving DecidableEq, Repr

-- `sum += count` of an `int` and an `unsigned long`.
def accumulate (sum : BitVec 32) (count : BitVec 64) : BitVec 32 := (sum.signExtend 64 + count).setWidth 32

def addCounters (sums : Counters (BitVec 32)) (cpu : Counters (BitVec 64)) : Counters (BitVec 32) where
  rxCount := accumulate sums.rxCount cpu.rxCount
  allocCount := accumulate sums.allocCount cpu.allocCount
  freeCount := accumulate sums.freeCount cpu.freeCount

/-- `rxcounts`, `alloccounts` and `freecounts` after the loop. -/
def counts (cpus : List (Counters (BitVec 64))) : Counters (BitVec 32) := cpus.foldl addCounters ⟨0, 0, 0⟩

-- `%11lu`
def format (v : BitVec 64) : List Char := (Nat.toDigits 10 v.toNat).leftpad 11 ' '

/-- `sprintf( tmp, "%11lu,%11lu,%11lu\r\n", …)` -/
def sprintf (v : Counters (BitVec 64)) : List Char :=
  format v.rxCount ++ ',' :: (format v.allocCount ++ ',' :: (format v.freeCount ++ ['\r', '\n']))

/-- What `%lu` takes of an `int`. -/
def passed (upper : Counters (BitVec 32)) (n : Counters (BitVec 32)) : Counters (BitVec 64) where
  rxCount := upper.rxCount ++ n.rxCount
  allocCount := upper.allocCount ++ n.allocCount
  freeCount := upper.freeCount ++ n.freeCount

def record (upper : Counters (BitVec 32)) (cpus : List (Counters (BitVec 64))) : List Char :=
  sprintf (passed upper (counts cpus))

inductive Overrun where
  | tmp
  deriving DecidableEq, Repr

/-- What is placed in the user's buffer, and the value returned; `count` is not looked at. -/
def genpipeRead (upper : Counters (BitVec 32)) (cpus : List (Counters (BitVec 64))) (fault : Option Nat) :
    Except Overrun (List Char × Except Errno Nat) :=
  let text := record upper cpus
  -- `char tmp[40]`, with the terminator
  if 40 < text.length + 1 then .error .tmp
  else
    let left := 37 - copied fault 37
    let placed := text.take (copied fault 37)
    if left ≠ 0 then .ok (placed, .error .EFAULT) else .ok (placed, .ok 37)

/-! ## Reading the record -/

def readNumber (text : List Char) : Option (Nat × List Char) :=
  Decimal.read (text.dropWhile fun c => c = ' ')

def readRecord (text : List Char) : Option (Counters Nat) :=
  match readNumber text with
  | some (rxCount, ',' :: text) =>
    match readNumber text with
    | some (allocCount, ',' :: text) =>
      match readNumber text with
      | some (freeCount, ['\r', '\n']) => some { rxCount, allocCount, freeCount }
      | _ => none
    | _ => none
  | _ => none

theorem readNumber_format (v : BitVec 64) {rest : List Char} (ends : Decimal.Ends rest) :
    readNumber (format v ++ rest) = some (v.toNat, rest) := by
  have numeral := Decimal.toDigits_isNumeral v.toNat
  have blanks : ∀ c ∈ List.replicate (11 - (Nat.toDigits 10 v.toNat).length) ' ', decide (c = ' ') = true :=
    fun c member => decide_eq_true (List.eq_of_mem_replicate member)
  have starts : (Nat.toDigits 10 v.toNat ++ rest).dropWhile (fun c => c = ' ') =
      Nat.toDigits 10 v.toNat ++ rest := by
    obtain ⟨first, digits, same⟩ := List.exists_cons_of_ne_nil numeral.some
    have digit : first.isDigit := numeral.all first (by rw [same]; exact List.mem_cons_self)
    have other : ¬ decide (first = ' ') = true := by
      rw [decide_eq_true_eq]
      rintro rfl
      exact absurd digit (by decide)
    rw [same, List.cons_append]
    exact List.dropWhile_cons_of_neg other
  rw [readNumber, format, List.leftpad, List.append_assoc, List.dropWhile_append_of_pos blanks, starts,
    Decimal.read_toDigits _ ends]

/-- Whatever is printed is read back. -/
theorem readRecord_sprintf (v : Counters (BitVec 64)) :
    readRecord (sprintf v) = some ⟨v.rxCount.toNat, v.allocCount.toNat, v.freeCount.toNat⟩ := by
  have comma (rest : List Char) : Decimal.Ends (',' :: rest) := rfl
  have stop : Decimal.Ends ['\r', '\n'] := rfl
  simp only [readRecord, sprintf, readNumber_format _ (comma _), readNumber_format _ stop]

/-! ## What is printed -/

theorem format_length {v : BitVec 64} (small : v.toNat < 10 ^ 11) : (format v).length = 11 := by
  have short := (Nat.length_toDigits_le_iff (by decide) (by decide)).mpr small
  rw [format, List.length_leftpad, Nat.max_eq_left short]

theorem accumulate_toNat (sum : BitVec 32) (count : BitVec 64) :
    (accumulate sum count).toNat = (sum.toNat + count.toNat) % 2 ^ 32 := by
  have low : (sum.signExtend 64).setWidth 32 = sum := by
    ext i below
    rw [BitVec.getElem_setWidth, BitVec.getLsbD_signExtend, if_pos below, decide_eq_true (by omega),
      Bool.true_and, BitVec.getLsbD_eq_getElem]
  rw [accumulate, BitVec.setWidth_add _ _ (by decide), low, BitVec.toNat_add, BitVec.toNat_setWidth,
    Nat.add_mod_mod]

/-- The sums over all processors. -/
def totals (cpus : List (Counters (BitVec 64))) : Counters Nat where
  rxCount := (cpus.map fun cpu => cpu.rxCount.toNat).sum
  allocCount := (cpus.map fun cpu => cpu.allocCount.toNat).sum
  freeCount := (cpus.map fun cpu => cpu.freeCount.toNat).sum

theorem foldl_addCounters {f : Counters (BitVec 32) → BitVec 32} {g : Counters (BitVec 64) → BitVec 64}
    (apart : ∀ sums cpu, f (addCounters sums cpu) = accumulate (f sums) (g cpu))
    (cpus : List (Counters (BitVec 64))) (start : Counters (BitVec 32)) :
    (f (cpus.foldl addCounters start)).toNat =
      ((f start).toNat + (cpus.map fun cpu => (g cpu).toNat).sum) % 2 ^ 32 := by
  induction cpus generalizing start with
  | nil => exact (Nat.mod_eq_of_lt (f start).isLt).symm
  | cons cpu cpus ih =>
    rw [List.foldl_cons, ih, apart, accumulate_toNat, List.map_cons, List.sum_cons, Nat.mod_add_mod,
      Nat.add_assoc]

theorem counts_toNat (cpus : List (Counters (BitVec 64))) :
    (counts cpus).rxCount.toNat = (totals cpus).rxCount % 2 ^ 32 ∧
      (counts cpus).allocCount.toNat = (totals cpus).allocCount % 2 ^ 32 ∧
      (counts cpus).freeCount.toNat = (totals cpus).freeCount % 2 ^ 32 := by
  have rx := foldl_addCounters (f := Counters.rxCount) (fun _ _ => rfl) cpus ⟨0, 0, 0⟩
  have alloc := foldl_addCounters (f := Counters.allocCount) (fun _ _ => rfl) cpus ⟨0, 0, 0⟩
  have free := foldl_addCounters (f := Counters.freeCount) (fun _ _ => rfl) cpus ⟨0, 0, 0⟩
  rw [show BitVec.toNat (0 : BitVec 32) = 0 from rfl, Nat.zero_add] at rx alloc free
  exact ⟨rx, alloc, free⟩

/-- A record of 37 characters that fits `tmp` and spells the sums. -/
structure ExactRecord (text : List Char) (sums : Counters Nat) : Prop where
  length : text.length = 37
  fits : text.length + 1 ≤ 40
  spells : readRecord text = some sums

theorem append_toNat_eq_iff {upper n : BitVec 32} {total : Nat} (low : n.toNat = total % 2 ^ 32) :
    (upper ++ n).toNat = total ↔ upper.toNat = total / 2 ^ 32 := by
  have bound := n.isLt
  rw [BitVec.toNat_append, ← Nat.shiftLeft_add_eq_or_of_lt bound, Nat.shiftLeft_eq, low]
  omega

/-- The record is exact if and only if the upper halves of the registers are those of the sums. -/
theorem record_exact_iff (upper : Counters (BitVec 32)) (cpus : List (Counters (BitVec 64)))
    (rx : (totals cpus).rxCount < 10 ^ 11) (alloc : (totals cpus).allocCount < 10 ^ 11)
    (free : (totals cpus).freeCount < 10 ^ 11) :
    ExactRecord (record upper cpus) (totals cpus) ↔
      upper.rxCount.toNat = (totals cpus).rxCount / 2 ^ 32 ∧
        upper.allocCount.toNat = (totals cpus).allocCount / 2 ^ 32 ∧
        upper.freeCount.toNat = (totals cpus).freeCount / 2 ^ 32 := by
  obtain ⟨rxLow, allocLow, freeLow⟩ := counts_toNat cpus
  rw [← append_toNat_eq_iff rxLow, ← append_toNat_eq_iff allocLow, ← append_toNat_eq_iff freeLow]
  have read := readRecord_sprintf (passed upper (counts cpus))
  constructor
  · intro exact
    have same := Option.some.inj (read.symm.trans exact.spells)
    exact ⟨congrArg Counters.rxCount same, congrArg Counters.allocCount same,
      congrArg Counters.freeCount same⟩
  · rintro ⟨rxSame, allocSame, freeSame⟩
    have length : (record upper cpus).length = 37 := by
      have first := format_length (v := upper.rxCount ++ (counts cpus).rxCount) (by omega)
      have second := format_length (v := upper.allocCount ++ (counts cpus).allocCount) (by omega)
      have third := format_length (v := upper.freeCount ++ (counts cpus).freeCount) (by omega)
      simp only [record, sprintf, passed, List.length_append, List.length_cons, List.length_nil, first,
        second, third]
    refine ⟨length, by omega, read.trans ?_⟩
    simp only [passed, rxSame, allocSame, freeSame]

theorem record_exact_sample :
    ExactRecord (record ⟨0, 0, 0⟩ [⟨3, 2, 1⟩, ⟨4, 0, 0⟩]) (totals [⟨3, 2, 1⟩, ⟨4, 0, 0⟩]) ↔
      (0#32).toNat = (totals [⟨3, 2, 1⟩, ⟨4, 0, 0⟩]).rxCount / 2 ^ 32 ∧
        (0#32).toNat = (totals [⟨3, 2, 1⟩, ⟨4, 0, 0⟩]).allocCount / 2 ^ 32 ∧
        (0#32).toNat = (totals [⟨3, 2, 1⟩, ⟨4, 0, 0⟩]).freeCount / 2 ^ 32 :=
  record_exact_iff ⟨0, 0, 0⟩ _ (by decide) (by decide) (by decide)

/-- After 2 ^ 32 packets on one processor the record has a zero. -/
theorem record_wraps :
    (totals [⟨0x100000000, 0, 0⟩]).rxCount = 2 ^ 32 ∧
      readRecord (record ⟨0, 0, 0⟩ [⟨0x100000000, 0, 0⟩]) = some ⟨0, 0, 0⟩ ∧
      ¬ ExactRecord (record ⟨0, 0, 0⟩ [⟨0x100000000, 0, 0⟩]) (totals [⟨0x100000000, 0, 0⟩]) := by
  have zero : readRecord (record ⟨0, 0, 0⟩ [⟨0x100000000, 0, 0⟩]) = some ⟨0, 0, 0⟩ := by decide
  refine ⟨by decide, zero, fun exact => ?_⟩
  have spells := exact.spells
  rw [zero] at spells
  exact absurd spells (by decide)

theorem genpipeRead_exact {upper : Counters (BitVec 32)} {cpus : List (Counters (BitVec 64))}
    {sums : Counters Nat} (exact : ExactRecord (record upper cpus) sums) :
    genpipeRead upper cpus none = .ok (record upper cpus, .ok 37) := by
  have fits := exact.fits
  simp [genpipeRead, Nat.not_lt.mpr fits, List.take_of_length_le (Nat.le_of_eq exact.length)]

end TestPrograms.Genpipe
