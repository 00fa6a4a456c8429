import Mathlib.Data.Nat.Prime.Basic
import Mathlib.Tactic.Ring
import TestPrograms.IpChecksum.FieldStored

/-! # Bursts in a header

A header that verifies, with bits changed within a window of sixteen that need not begin at a
half word.  The header is taken as the number that its bytes spell in the order they are sent,
which is a multiple of `0xffff` just when the sum of its half words is.
-/

namespace TestPrograms.IpChecksum

open TestPrograms.Foundations
open TestPrograms.Foundations.Memory
open TestPrograms.Foundations.OnesComplement

/-! ## Numbers that differ in a window -/

/-- The `w` bits above the lowest `t`. -/
def window (w t n : Nat) : Nat := n / 2 ^ t % 2 ^ w

/-- The numbers agree above the window and below it. -/
structure AgreeAround (w t n n' : Nat) : Prop where
  above : n / 2 ^ (t + w) = n' / 2 ^ (t + w)
  below : n % 2 ^ t = n' % 2 ^ t

theorem window_parts (w t n : Nat) :
    n = n / 2 ^ (t + w) * 2 ^ (t + w) + (window w t n * 2 ^ t + n % 2 ^ t) := by
  have lower := Nat.div_add_mod n (2 ^ t)
  have upper := Nat.div_add_mod (n / 2 ^ t) (2 ^ w)
  rw [Nat.div_div_eq_div_mul, ← Nat.pow_add] at upper
  calc n = 2 ^ t * (n / 2 ^ t) + n % 2 ^ t := lower.symm
    _ = 2 ^ t * (2 ^ w * (n / 2 ^ (t + w)) + n / 2 ^ t % 2 ^ w) + n % 2 ^ t := by rw [upper]
    _ = n / 2 ^ (t + w) * 2 ^ (t + w) + (window w t n * 2 ^ t + n % 2 ^ t) := by rw [window]; ring

theorem AgreeAround.eq_iff {w t n n' : Nat} (agree : AgreeAround w t n n') :
    n = n' ↔ window w t n = window w t n' := by
  constructor
  · rintro rfl
    rfl
  · intro same
    rw [window_parts w t n, window_parts w t n', agree.above, agree.below, same]

theorem coprime_ones {w : Nat} (wide : 0 < w) (t : Nat) : Nat.Coprime (2 ^ t) (2 ^ w - 1) := by
  obtain ⟨v, rfl⟩ : ∃ v, w = v + 1 := ⟨w - 1, by omega⟩
  have positive := Nat.two_pow_pos v
  have odd : Odd (2 ^ (v + 1) - 1) := ⟨2 ^ v - 1, by rw [Nat.pow_succ]; omega⟩
  exact (Nat.coprime_two_left.mpr odd).pow_left t

/-- Numbers of `w` bits that are congruent are equal, unless they are the two zeros. -/
theorem modEq_ones_iff {w u u' : Nat} (wide : 0 < w) (small : u < 2 ^ w) (small' : u' < 2 ^ w) :
    u ≡ u' [MOD 2 ^ w - 1] ↔ u = u' ∨ (u = 0 ∧ u' = 2 ^ w - 1) ∨ u = 2 ^ w - 1 ∧ u' = 0 := by
  have positive : 1 < 2 ^ w := Nat.one_lt_two_pow (by omega)
  constructor
  · intro same
    obtain less | equal | more := Nat.lt_trichotomy u u'
    · have gap := Nat.le_of_dvd (by omega) ((Nat.modEq_iff_dvd' less.le).mp same)
      exact .inr (.inl (by omega))
    · exact .inl equal
    · have gap := Nat.le_of_dvd (by omega) ((Nat.modEq_iff_dvd' more.le).mp same.symm)
      exact .inr (.inr (by omega))
  · rintro (rfl | ⟨rfl, rfl⟩ | ⟨rfl, rfl⟩)
    · exact Nat.ModEq.refl _
    · exact (Nat.modEq_zero_iff_dvd.mpr (Nat.dvd_refl _)).symm
    · exact Nat.modEq_zero_iff_dvd.mpr (Nat.dvd_refl _)

theorem AgreeAround.modEq_iff {w t n n' : Nat} (wide : 0 < w) (agree : AgreeAround w t n n') :
    n ≡ n' [MOD 2 ^ w - 1] ↔ window w t n ≡ window w t n' [MOD 2 ^ w - 1] := by
  have parts := window_parts w t n
  have parts' := window_parts w t n'
  rw [← agree.above, ← agree.below] at parts'
  constructor
  · intro same
    rw [parts, parts'] at same
    have inner := (same.add_left_cancel' _).add_right_cancel' _
    exact Nat.ModEq.cancel_right_of_coprime (coprime_ones wide t).symm inner
  · intro same
    have outer := ((same.mul_right (2 ^ t)).add_right (n % 2 ^ t)).add_left (n / 2 ^ (t + w) * 2 ^ (t + w))
    rwa [← parts, ← parts'] at outer

/-! ## The header as a number -/

/-- The number that bytes spell in the order of the network. -/
def number (memory : Memory) (start : Nat) : Nat → Nat
  | 0 => 0
  | count + 1 => number memory start count * 256 + (memory (start + count)).toNat

theorem half_toNat (memory : Memory) (iph k : Nat) :
    (half memory iph k).toNat = (memory (iph + 2 * k)).toNat + 256 * (memory (iph + 2 * k + 1)).toNat := by
  have low := (memory (iph + 2 * k)).isLt
  have high := (memory (iph + 2 * k + 1)).isLt
  simp only [half, loadWord, loadBytes, bytesWord, BitVec.toNat_ofNat]
  omega

/-- The half words are loaded with their bytes exchanged, which is a factor of 256. -/
theorem number_halves (memory : Memory) (iph count : Nat) :
    number memory iph (2 * count) ≡ 256 * total (halves memory iph count) [MOD 2 ^ 16 - 1] ∧
      (number memory iph (2 * count) = 0 ↔ total (halves memory iph count) = 0) := by
  induction count with
  | zero => exact ⟨Nat.ModEq.refl _, by simp [number, halves, total]⟩
  | succ count ih =>
    obtain ⟨same, zero⟩ := ih
    have value := half_toNat memory iph count
    have longer : number memory iph (2 * (count + 1)) = number memory iph (2 * count) * 65536 +
        (256 * (memory (iph + 2 * count)).toNat + (memory (iph + 2 * count + 1)).toNat) := by
      rw [Nat.mul_succ, number, number, Nat.add_assoc iph]
      ring
    have summed : total (halves memory iph (count + 1)) =
        total (halves memory iph count) + (half memory iph count).toNat := by
      rw [halves_eq, halves_eq, List.range_succ, List.map_append, List.map_singleton, total_concat]
    rw [longer, summed, value]
    constructor
    · -- 65536 is 1, and so is 256 times 256
      simp only [Nat.ModEq, Nat.reducePow, Nat.reduceSub] at same ⊢
      omega
    · omega

/-- A header verifies if and only if its number is a multiple of `0xffff`, but not zero. -/
theorem csum_zero_iff (memory : Memory) (iph : Nat) {ihl : Word} (long : 5 ≤ ihl.toNat) :
    csum memory iph ihl = .ok 0#16 ↔
      number memory iph (4 * ihl.toNat) ≠ 0 ∧ 2 ^ 16 - 1 ∣ number memory iph (4 * ihl.toNat) := by
  obtain ⟨same, zero⟩ := number_halves memory iph (2 * ihl.toNat)
  rw [← Nat.mul_assoc, show 2 * 2 = 4 from rfl] at same zero
  have divides : 2 ^ 16 - 1 ∣ number memory iph (4 * ihl.toNat) ↔
      2 ^ 16 - 1 ∣ total (halves memory iph (2 * ihl.toNat)) := by
    rw [← Nat.modEq_zero_iff_dvd, Nat.ModEq, same, ← Nat.ModEq, Nat.modEq_zero_iff_dvd]
    exact (coprime_ones (by decide) 8).symm.dvd_mul_left
  rw [csum_eq memory iph long, Except.ok.injEq, not_eq_zero_iff, sum_eq_allOnes_iff (by decide), divides]
  exact and_congr_left' (not_congr zero.symm)

/-- Bits changed within sixteen in a row, wherever these begin, show in a header that has
    verified, unless they are all sixteen and have all been zeros or all been ones. -/
theorem bursts_found {memory garbled : Memory} {iph : Nat} {ihl : Word} (long : 5 ≤ ihl.toNat) {t : Nat}
    (verifies : csum memory iph ihl = .ok 0#16)
    (around : AgreeAround 16 t (number memory iph (4 * ihl.toNat)) (number garbled iph (4 * ihl.toNat)))
    (changed : number memory iph (4 * ihl.toNat) ≠ number garbled iph (4 * ihl.toNat)) :
    let before := window 16 t (number memory iph (4 * ihl.toNat))
    let after := window 16 t (number garbled iph (4 * ihl.toNat))
    csum garbled iph ihl = .ok 0#16 ↔
      (before = 0x0000 ∧ after = 0xffff) ∨
        (before = 0xffff ∧ after = 0x0000 ∧ number garbled iph (4 * ihl.toNat) ≠ 0) := by
  intro before after
  obtain ⟨-, divides⟩ := (csum_zero_iff memory iph long).mp verifies
  have zero := Nat.modEq_zero_iff_dvd.mpr divides
  have small : before < 2 ^ 16 := Nat.mod_lt _ (Nat.two_pow_pos 16)
  have small' : after < 2 ^ 16 := Nat.mod_lt _ (Nat.two_pow_pos 16)
  have other : before ≠ after := fun same => changed (around.eq_iff.mpr same)
  have still : 2 ^ 16 - 1 ∣ number garbled iph (4 * ihl.toNat) ↔
      (before = 0 ∧ after = 2 ^ 16 - 1) ∨ before = 2 ^ 16 - 1 ∧ after = 0 := by
    rw [← Nat.modEq_zero_iff_dvd, Nat.ModEq, ← zero, ← Nat.ModEq, Nat.ModEq.comm,
      around.modEq_iff (by decide), modEq_ones_iff (by decide) small small', or_iff_right other]
  rw [csum_zero_iff garbled iph long, still]
  constructor
  · rintro ⟨some, filled | emptied⟩
    · exact .inl filled
    · exact .inr ⟨emptied.1, emptied.2, some⟩
  · rintro (filled | ⟨full, empty, some⟩)
    · refine ⟨fun none => ?_, .inl filled⟩
      have nothing : after = 0 := by
        rw [show after = window 16 t _ from rfl, none, window, Nat.zero_div, Nat.zero_mod]
      rw [nothing] at filled
      exact absurd filled.2 (by decide)
    · exact ⟨some, .inr ⟨full, empty⟩⟩

/-- The lower half of the first half word and the upper half of the second. -/
theorem bursts_found_sample :
    let memory : Memory := fun a =>
      if a = 0x1000 then 0x45#8 else if a = 0x1002 then 0xba#8 else if a = 0x1003 then 0xff#8 else 0#8
    let garbled : Memory := fun a => if a = 0x1001 then 0x01#8 else if a = 0x1002 then 0x3a#8 else memory a
    csum memory 0x1000 5#32 = .ok 0#16 ∧ csum garbled 0x1000 5#32 ≠ .ok 0#16 := by
  intro memory garbled
  have verifies : csum memory 0x1000 5#32 = .ok 0#16 := by decide
  have around : AgreeAround 16 136 (number memory 0x1000 20) (number garbled 0x1000 20) :=
    ⟨by decide, by decide⟩
  have found := bursts_found (by decide) verifies around (by decide)
  exact ⟨verifies, fun still => absurd (found.mp still) (by decide)⟩

end TestPrograms.IpChecksum
