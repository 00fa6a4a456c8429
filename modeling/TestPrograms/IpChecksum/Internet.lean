import Mathlib.Logic.Function.Iterate
import TestPrograms.Foundations.OnesComplement
import TestPrograms.IpChecksum.Program

/-! # The Internet checksum

The register and the carry flag hold the 32-bit one's complement sum of the words loaded
so far, through every instruction of the chain.  Adding the two halves of that sum gives
the 16-bit sum of the half words, since `2 ^ 16 - 1` divides `2 ^ 32 - 1`.
-/

namespace TestPrograms.IpChecksum

open TestPrograms.Foundations
open TestPrograms.Foundations.Memory
open TestPrograms.Foundations.OnesComplement

def words (memory : Memory) (iph count : Nat) : List Word :=
  (List.range count).map fun k => BitVec.ofNat 32 (loadWord memory (iph + 4 * k) 4)

def halves (memory : Memory) (iph count : Nat) : List (BitVec 16) :=
  (List.range count).map fun k => BitVec.ofNat 16 (loadWord memory (iph + 2 * k) 2)

theorem words_succ (memory : Memory) (iph count : Nat) :
    words memory iph (count + 1) =
      words memory iph count ++ [BitVec.ofNat 32 (loadWord memory (iph + 4 * count) 4)] := by
  rw [words, words, List.range_succ, List.map_append, List.map_cons, List.map_nil]

/-! ## The chain -/

/-- The state after the first `count` words. -/
structure Chained (memory : Memory) (iph count : Nat) (s : Cpu) : Prop where
  holds : Holds s.sum s.cf (sum (words memory iph count))
  loaded : s.loaded = List.range' iph (4 * count)

theorem Chained.adcl {memory : Memory} {iph count disp : Nat} {s : Cpu}
    (chained : Chained memory iph count s) (next : s.iph + disp = iph + 4 * count) :
    Chained memory iph (count + 1) (adcl memory disp s) := by
  constructor
  · have added := chained.holds.addCarry (operand memory disp s)
    rw [words_succ, sum_concat, ← next]
    exact added
  · have grown : List.range' iph (4 * (count + 1)) =
        List.range' iph (4 * count) ++ List.range' (iph + 4 * count) 4 := by
      rw [List.range'_append_1, Nat.mul_succ]
    simp only [IpChecksum.adcl, touch, addCarry, chained.loaded, next, grown]

theorem addl_eq_adcl (memory : Memory) (disp : Nat) {s : Cpu} (clear : s.cf = false) :
    addl memory disp s = adcl memory disp s := by
  rw [addl, adcl, clear]

def chainState (memory : Memory) (s : Cpu) : Nat → Cpu
  | 0 => s
  | 1 => addl memory 4 s
  | 2 => adcl memory 8 (addl memory 4 s)
  | 3 => adcl memory 12 (adcl memory 8 (addl memory 4 s))
  | count + 4 => round memory (chainState memory s (count + 3))

theorem enter_chained (memory : Memory) (iph : Nat) {ihl : Word} (long : 5 ≤ ihl.toNat) :
    Chained memory iph 1 (enter memory iph ihl) ∧ (enter memory iph ihl).cf = false ∧
      (enter memory iph ihl).zf = false := by
  have clear : decide (ihl < 4#32) = false := by
    rw [decide_eq_false_iff_not, BitVec.lt_def, BitVec.toNat_ofNat]
    omega
  have above : decide (ihl = 4#32) = false := by
    rw [decide_eq_false_iff_not]
    rintro rfl
    exact absurd long (by decide)
  refine ⟨⟨?_, ?_⟩, clear, above⟩
  · have first : sum (words memory iph 1) = (enter memory iph ihl).sum := sum_singleton _
    have noCarry : (enter memory iph ihl).cf = false := clear
    rw [first, Holds, noCarry]
    rfl
  · rfl

/-- Through the whole chain the register and the carry hold the sum of the words, the
    pointer is where the next word is taken from and `ihl` counts the words left. -/
theorem chainState_chained (memory : Memory) (iph : Nat) {ihl : Word} (long : 5 ≤ ihl.toNat)
    {count : Nat} (within : count < ihl.toNat) :
    Chained memory iph (count + 1) (chainState memory (enter memory iph ihl) count) ∧
      (3 ≤ count → (chainState memory (enter memory iph ihl) count).iph = iph + 4 * (count - 3) ∧
        (chainState memory (enter memory iph ihl) count).ihl.toNat = ihl.toNat - (count + 1)) := by
  obtain ⟨first, clear, -⟩ := enter_chained memory iph long
  have second : Chained memory iph 2 (addl memory 4 (enter memory iph ihl)) :=
    addl_eq_adcl memory 4 clear ▸ first.adcl rfl
  have third := second.adcl (show _ + 8 = iph + 4 * 2 from rfl)
  have fourth := third.adcl (show _ + 12 = iph + 4 * 3 from rfl)
  have counter : (ihl - 4#32).toNat = ihl.toNat - 4 := by
    rw [BitVec.toNat_sub, BitVec.toNat_ofNat]
    have bound := ihl.isLt
    omega
  induction count with
  | zero => exact ⟨first, fun late => absurd late (by omega)⟩
  | succ count ih =>
    obtain ⟨chained, position⟩ := ih (by omega)
    -- three instructions before the loop, and then one round a word
    match count with
    | 0 => exact ⟨second, fun late => absurd late (by omega)⟩
    | 1 => exact ⟨third, fun late => absurd late (by omega)⟩
    | 2 => exact ⟨fourth, fun _ => ⟨rfl, counter⟩⟩
    | count + 3 =>
      obtain ⟨pointer, left⟩ := position (by omega)
      have operand : (chainState memory (enter memory iph ihl) (count + 3)).iph + 16 =
          iph + 4 * (count + 3 + 1) := by
        rw [pointer]
        omega
      have next := chained.adcl operand
      refine ⟨⟨next.holds, next.loaded⟩, fun _ => ⟨?_, ?_⟩⟩
      · show (chainState memory (enter memory iph ihl) (count + 3)).iph + 4 = _
        rw [pointer]
        omega
      · show ((chainState memory (enter memory iph ihl) (count + 3)).ihl - 1#32).toNat = _
        have bound := ihl.isLt
        rw [BitVec.toNat_sub, left, BitVec.toNat_ofNat]
        omega

theorem loop_spec (memory : Memory) (iph : Nat) {ihl : Word} (long : 5 ≤ ihl.toNat) (fuel : Nat)
    {count : Nat} (late : 3 ≤ count) (within : count + 1 < ihl.toNat)
    (enough : ihl.toNat ≤ count + 1 + fuel) :
    loop memory fuel (chainState memory (enter memory iph ihl) count) =
      .ok (chainState memory (enter memory iph ihl) (ihl.toNat - 1)) := by
  -- the words left are what the rounds are counted by, so the jump fails at the last one
  induction fuel generalizing count with
  | zero => omega
  | succ fuel ih =>
    obtain ⟨before, rfl⟩ : ∃ before, count = before + 3 := ⟨count - 3, by omega⟩
    have left := ((chainState_chained memory iph long within).2 (by omega)).2
    have zero : (chainState memory (enter memory iph ihl) (before + 4)).zf =
        decide ((chainState memory (enter memory iph ihl) (before + 4)).ihl = 0#32) := rfl
    rw [loop]
    show (if (chainState memory (enter memory iph ihl) (before + 4)).zf = true then _ else _) = _
    rw [zero]
    by_cases last : before + 5 = ihl.toNat
    · have done : (chainState memory (enter memory iph ihl) (before + 4)).ihl = 0#32 := by
        apply BitVec.eq_of_toNat_eq
        rw [left, BitVec.toNat_ofNat, Nat.zero_mod]
        omega
      rw [decide_eq_true done, if_pos rfl, ← last]
      rfl
    · have more : ¬ (chainState memory (enter memory iph ihl) (before + 4)).ihl = 0#32 := by
        intro done
        rw [done, BitVec.toNat_ofNat, Nat.zero_mod] at left
        omega
      rw [decide_eq_false more, if_neg Bool.false_ne_true]
      exact @ih (before + 4) (by omega) (by omega) (by omega)

/-! ## The two halves -/

theorem loadWord_halves (memory : Memory) (a : Nat) :
    loadWord memory a 4 = loadWord memory a 2 + 2 ^ 16 * loadWord memory (a + 2) 2 := by
  simp only [loadWord, loadBytes, bytesWord, Nat.add_assoc, Nat.reduceAdd]
  omega

/-- The words and the half words of a header have the same total modulo `2 ^ 16 - 1`, and
    are zero together. -/
theorem total_halves (memory : Memory) (iph count : Nat) :
    total (words memory iph count) ≡ total (halves memory iph (2 * count)) [MOD 2 ^ 16 - 1] ∧
      (total (words memory iph count) = 0 ↔ total (halves memory iph (2 * count)) = 0) := by
  have two (n : Nat) : halves memory iph (2 * (n + 1)) = halves memory iph (2 * n) ++
      [BitVec.ofNat 16 (loadWord memory (iph + 4 * n) 2)] ++
      [BitVec.ofNat 16 (loadWord memory (iph + 4 * n + 2) 2)] := by
    rw [halves, halves, show 2 * (n + 1) = 2 * n + 1 + 1 by omega, List.range_succ, List.range_succ,
      List.map_append, List.map_append, List.map_cons, List.map_nil, List.map_cons, List.map_nil,
      show iph + 2 * (2 * n) = iph + 4 * n by omega,
      show iph + 2 * (2 * n + 1) = iph + 4 * n + 2 by omega]
  induction count with
  | zero => exact ⟨rfl, Iff.rfl⟩
  | succ count ih =>
    have low := loadWord_lt memory (iph + 4 * count) 2
    have high := loadWord_lt memory (iph + 4 * count + 2) 2
    have split := loadWord_halves memory (iph + 4 * count)
    rw [words_succ, two, total_concat, total_concat, total_concat, BitVec.toNat_ofNat,
      BitVec.toNat_ofNat, BitVec.toNat_ofNat, Nat.mod_eq_of_lt (by omega), Nat.mod_eq_of_lt (by omega),
      Nat.mod_eq_of_lt (by omega), split, Nat.add_assoc (total (halves memory iph (2 * count)))]
    -- 65536 times the high half is the high half
    have folded : loadWord memory (iph + 4 * count) 2 + 2 ^ 16 * loadWord memory (iph + 4 * count + 2) 2 ≡
        loadWord memory (iph + 4 * count) 2 + loadWord memory (iph + 4 * count + 2) 2
          [MOD 2 ^ 16 - 1] := by
      show _ % _ = _ % _
      omega
    exact ⟨ih.1.add folded, by omega⟩

theorem add_halves (memory : Memory) (iph count : Nat) :
    add ((sum (words memory iph count)).extractLsb' 16 16) ((sum (words memory iph count)).setWidth 16) =
      sum (halves memory iph (2 * count)) := by
  obtain ⟨same, zero⟩ := total_halves memory iph count
  have value := sum_toNat (words memory iph count)
  have bound := (sum (words memory iph count)).isLt
  have pair : sum [(sum (words memory iph count)).extractLsb' 16 16,
      (sum (words memory iph count)).setWidth 16] = add _ _ := congrArg (add · _) (zero_add _)
  have parts : total [(sum (words memory iph count)).extractLsb' 16 16,
      (sum (words memory iph count)).setWidth 16] =
        (sum (words memory iph count)).toNat / 2 ^ 16 + (sum (words memory iph count)).toNat % 2 ^ 16 := by
    simp only [total, List.map_cons, List.map_nil, List.sum_cons, List.sum_nil, BitVec.extractLsb'_toNat,
      BitVec.toNat_setWidth, Nat.shiftRight_eq_div_pow]
    omega
  -- both are residues modulo 2 ^ 16 - 1, of totals that agree modulo it and vanish together
  rw [← pair]
  apply BitVec.eq_of_toNat_eq
  rw [sum_toNat, sum_toNat, parts]
  apply residue_congr
  · have folded : (sum (words memory iph count)).toNat / 2 ^ 16 +
        (sum (words memory iph count)).toNat % 2 ^ 16 ≡ (sum (words memory iph count)).toNat
          [MOD 2 ^ 16 - 1] := by
      show _ % _ = _ % _
      omega
    have divides : 2 ^ 16 - 1 ∣ 2 ^ 32 - 1 := by decide
    have wide : (sum (words memory iph count)).toNat ≡ total (words memory iph count)
        [MOD 2 ^ 32 - 1] := value ▸ residue_modEq _ _
    exact (folded.trans (wide.of_dvd divides)).trans same
  · have none : (sum (words memory iph count)).toNat = 0 ↔ total (words memory iph count) = 0 := by
      rw [value, residue_eq_zero_iff]
    rw [← zero, ← none]
    omega

theorem adclZero_closes {s : Cpu} {value : Word} (holds : Holds s.sum s.cf value) :
    (adclZero s).sum = value ∧ (adclZero s).cf = false := by
  have exact : s.sum.toNat + (0#32).toNat + s.cf.toNat = value.toNat := by
    rw [BitVec.toNat_ofNat, Nat.zero_mod, Nat.add_zero]
    exact holds
  constructor
  · simp only [adclZero, addCarry, exact, BitVec.ofNat_toNat, BitVec.setWidth_eq]
  · simp only [adclZero, addCarry, exact]
    exact decide_eq_false (Nat.not_le.mpr value.isLt)

theorem addHalves_spec {s : Cpu} {value : Word} (holds : Holds s.sum s.cf value) :
    ∃ low : BitVec 16, (addHalves s).sum = 0#16 ++ low ∧
      Holds low (addHalves s).cf (add (value.extractLsb' 16 16) (value.setWidth 16)) := by
  obtain ⟨closed, -⟩ := adclZero_closes holds
  have upper : (value >>> 16).setWidth 16 = value.extractLsb' 16 16 := rfl
  have empty : (value >>> 16).extractLsb' 16 16 = 0#16 := by
    apply BitVec.eq_of_toNat_eq
    have bound := value.isLt
    rw [BitVec.extractLsb'_toNat, BitVec.toNat_ushiftRight, Nat.shiftRight_eq_div_pow,
      Nat.shiftRight_eq_div_pow, BitVec.toNat_ofNat]
    omega
  -- the upper half stands alone in the register, and the lower half is added to it
  have start : Holds (value.extractLsb' 16 16) false (value.extractLsb' 16 16) := rfl
  have added := start.addCarry (value.setWidth 16)
  refine ⟨value.extractLsb' 16 16 + value.setWidth 16, ?_, ?_⟩
  · simp only [addHalves, addw, shrlSixteen, movl, closed, upper, empty]
  · simp only [addHalves, addw, shrlSixteen, movl, closed, upper]
    rw [Bool.toNat_false, Nat.add_zero, BitVec.ofNat_add, BitVec.ofNat_toNat, BitVec.ofNat_toNat,
      BitVec.setWidth_eq, BitVec.setWidth_eq] at added
    exact added

theorem low_toNat (x : BitVec 16) : (0#16 ++ x).toNat = x.toNat := by
  rw [BitVec.toNat_append, BitVec.toNat_ofNat, Nat.zero_mod, Nat.zero_shiftLeft, Nat.zero_or]

theorem low_setWidth (x : BitVec 16) : (0#16 ++ x).setWidth 16 = x := by
  apply BitVec.eq_of_toNat_eq
  rw [BitVec.toNat_setWidth, low_toNat, Nat.mod_eq_of_lt x.isLt]

theorem low_extract (x : BitVec 16) : (0#16 ++ x).extractLsb' 16 16 = 0#16 := by
  apply BitVec.eq_of_toNat_eq
  rw [BitVec.extractLsb'_toNat, low_toNat, Nat.shiftRight_eq_div_pow, Nat.div_eq_of_lt x.isLt]
  rfl

theorem adclZero_folds {s : Cpu} {low value : BitVec 16} (register : s.sum = 0#16 ++ low)
    (holds : Holds low s.cf value) : (adclZero s).sum = 0#16 ++ value ∧ (adclZero s).cf = false := by
  apply adclZero_closes
  rw [Holds, register, low_toNat, low_toNat]
  exact holds

/-- The loop ends with the sum of all words in the register and the carry. -/
theorem loop_ends (memory : Memory) (iph : Nat) {ihl : Word} (long : 5 ≤ ihl.toNat) :
    ∃ last, loop memory ihl.toNat (chainState memory (enter memory iph ihl) 3) = .ok last ∧
      Chained memory iph ihl.toNat last := by
  have ends := loop_spec memory iph long ihl.toNat (Nat.le_refl 3) (by omega) (by omega)
  have chained := (chainState_chained memory iph long (by omega : ihl.toNat - 1 < ihl.toNat)).1
  rw [Nat.sub_add_cancel (by omega)] at chained
  exact ⟨_, ends, chained⟩

theorem ipFastCsum_value (memory : Memory) (iph : Nat) {ihl : Word} (long : 5 ≤ ihl.toNat) :
    ipFastCsum memory ihl.toNat iph ihl =
      .ok (~~~ sum (halves memory iph (2 * ihl.toNat)), List.range' iph (4 * ihl.toNat)) := by
  obtain ⟨-, noCarry, notZero⟩ := enter_chained memory iph long
  obtain ⟨last, ends, chained⟩ := loop_ends memory iph long
  obtain ⟨low, register, half⟩ := addHalves_spec chained.holds
  obtain ⟨folded, -⟩ := adclZero_folds register half
  rw [add_halves] at folded
  have addresses : (notl (adclZero (addHalves last))).loaded = List.range' iph (4 * ihl.toNat) :=
    chained.loaded
  have value : (notl (adclZero (addHalves last))).sum.setWidth 16 =
      ~~~ sum (halves memory iph (2 * ihl.toNat)) := by
    rw [notl, folded, BitVec.setWidth_not (by decide), low_setWidth]
  have looped : loop memory ihl.toNat
      (adcl memory 12 (adcl memory 8 (addl memory 4 (enter memory iph ihl)))) = .ok last := ends
  simp only [ipFastCsum, noCarry, notZero, Bool.false_eq_true, or_self, if_false, looped, addresses,
    value]

/-- No carry is lost: every state of the chain holds the sum of the words so far, which
    leaves no room for a carry beside all ones, and neither `adcl $0` carries out. -/
structure CarriesKept (memory : Memory) (iph : Nat) (ihl : Word) (last : Cpu) : Prop where
  chain : ∀ count < ihl.toNat,
    Holds (chainState memory (enter memory iph ihl) count).sum
      (chainState memory (enter memory iph ihl) count).cf (sum (words memory iph (count + 1))) ∧
    ¬ ((chainState memory (enter memory iph ihl) count).cf = true ∧
      (chainState memory (enter memory iph ihl) count).sum = BitVec.allOnes 32)
  closed : (adclZero last).cf = false
  halves : ¬ ((addHalves last).cf = true ∧ (addHalves last).sum.setWidth 16 = BitVec.allOnes 16)
  folded : (adclZero (addHalves last)).cf = false ∧
    (adclZero (addHalves last)).sum.extractLsb' 16 16 = 0#16

/-- For a header of five words or more the assembly returns the complement of the one's
    complement sum of its half words, which is zero only for zero words; it loads each byte
    of the header once, the loop ends, and no carry is lost on the way. -/
theorem ip_fast_csum_internet (memory : Memory) (iph : Nat) (ihl : Word) (long : 5 ≤ ihl.toNat) :
    ipFastCsum memory ihl.toNat iph ihl =
        .ok (~~~ sum (halves memory iph (2 * ihl.toNat)), List.range' iph (4 * ihl.toNat)) ∧
      (sum (halves memory iph (2 * ihl.toNat)) = 0#16 ↔
        ∀ word ∈ words memory iph ihl.toNat, word = 0#32) ∧
      ∃ last, loop memory ihl.toNat (chainState memory (enter memory iph ihl) 3) = .ok last ∧
        CarriesKept memory iph ihl last := by
  obtain ⟨last, ends, chained⟩ := loop_ends memory iph long
  obtain ⟨low, register, half⟩ := addHalves_spec chained.holds
  obtain ⟨folded, clear⟩ := adclZero_folds register half
  refine ⟨ipFastCsum_value memory iph long, ?_, last, ends, ?_, ?_, ?_, ?_⟩
  · rw [sum_eq_zero_iff, ← (total_halves memory iph ihl.toNat).2, total_eq_zero_iff]
  · intro count within
    have holds := (chainState_chained memory iph long within).1.holds
    exact ⟨holds, holds.not_full⟩
  · exact (adclZero_closes chained.holds).2
  · rw [register, low_setWidth]
    exact half.not_full
  · rw [folded]
    exact ⟨clear, low_extract _⟩

theorem ip_fast_csum_sample :
    let memory : Memory := fun a => if a = 0x1000 then 0x45#8 else 0#8
    ipFastCsum memory (5#32).toNat 0x1000 5#32 =
        .ok (~~~ sum (halves memory 0x1000 (2 * (5#32).toNat)), List.range' 0x1000 (4 * (5#32).toNat)) ∧
      (sum (halves memory 0x1000 (2 * (5#32).toNat)) = 0#16 ↔
        ∀ word ∈ words memory 0x1000 (5#32).toNat, word = 0#32) ∧
      ∃ last, loop memory (5#32).toNat (chainState memory (enter memory 0x1000 5#32) 3) = .ok last ∧
        CarriesKept memory 0x1000 5#32 last :=
  ip_fast_csum_internet _ 0x1000 5#32 (by decide)

end TestPrograms.IpChecksum
