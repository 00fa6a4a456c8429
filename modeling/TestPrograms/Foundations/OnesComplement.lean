import Mathlib.Data.Nat.ModEq
import Mathlib.Data.List.Induction
import Mathlib.Algebra.BigOperators.Group.List.Basic

/-! # One's complement sums

Addition with the carry put back in at the low end.  A sum is determined by the plain
total: it is the total modulo `2 ^ w - 1`, and zero only for the total zero.  A register
and a carry flag hold a sum between them when the carry is still to be put back.
-/

namespace TestPrograms.Foundations.OnesComplement

variable {w : Nat}

/-- Addition with end-around carry. -/
def add (a b : BitVec w) : BitVec w :=
  if a.toNat + b.toNat < 2 ^ w then a + b else a + b + 1#w

def sum (xs : List (BitVec w)) : BitVec w := xs.foldl add 0#w

def total (xs : List (BitVec w)) : Nat := (xs.map BitVec.toNat).sum

/-- The representative of `s` modulo `m` that is zero only for zero. -/
def residue (m s : Nat) : Nat := if s = 0 then 0 else (s - 1) % m + 1

theorem add_toNat (a b : BitVec w) :
    (add a b).toNat =
      if a.toNat + b.toNat < 2 ^ w then a.toNat + b.toNat else a.toNat + b.toNat + 1 - 2 ^ w := by
  have first := a.isLt
  have second := b.isLt
  unfold add
  split
  · rename_i fits
    rw [BitVec.toNat_add, Nat.mod_eq_of_lt fits]
  · rename_i carries
    have wide : 1 < 2 ^ w := by omega
    rw [BitVec.toNat_add, BitVec.toNat_add, BitVec.toNat_ofNat, Nat.mod_eq_of_lt wide,
      Nat.mod_add_mod, Nat.mod_eq_sub_mod (by omega), Nat.mod_eq_of_lt (by omega)]

theorem zero_add (x : BitVec w) : add 0#w x = x := by
  have bound := x.isLt
  rw [add, BitVec.toNat_ofNat, Nat.zero_mod, Nat.zero_add, if_pos bound, BitVec.zero_add]

theorem residue_add {m s x : Nat} (small : x ≤ m) :
    residue m (s + x) = if residue m s + x ≤ m then residue m s + x else residue m s + x - m := by
  by_cases zero : s = 0
  · subst zero
    by_cases none : x = 0
    · simp [residue, none]
    · have within : (x - 1) % m = x - 1 := Nat.mod_eq_of_lt (by omega)
      simp only [residue, if_true, Nat.zero_add, none, if_false, within, small]
      omega
  · by_cases trivialModulus : m = 0
    · have none : x = 0 := by omega
      subst none trivialModulus
      simp [residue, zero]
    · have below : (s - 1) % m < m := Nat.mod_lt _ (Nat.pos_of_ne_zero trivialModulus)
      have shifted : (s + x - 1) % m = ((s - 1) % m + x) % m := by
        rw [Nat.mod_add_mod, show s - 1 + x = s + x - 1 by omega]
      simp only [residue, zero, if_false, show ¬ s + x = 0 by omega, shifted]
      split
      · rw [Nat.mod_eq_of_lt (by omega)]
        omega
      · by_cases exact : (s - 1) % m + x < m
        · omega
        · rw [Nat.mod_eq_sub_mod (by omega), Nat.mod_eq_of_lt (by omega)]
          omega

theorem residue_congr {m s t : Nat} (same : s ≡ t [MOD m]) (zero : s = 0 ↔ t = 0) :
    residue m s = residue m t := by
  by_cases none : s = 0
  · rw [none, zero.mp none]
  · have some : t ≠ 0 := fun h => none (zero.mpr h)
    have shifted : s - 1 ≡ t - 1 [MOD m] := by
      apply Nat.ModEq.add_right_cancel' 1
      rwa [Nat.sub_add_cancel (by omega), Nat.sub_add_cancel (by omega)]
    rw [residue, residue, if_neg none, if_neg some, shifted]

theorem residue_modEq (m s : Nat) : residue m s ≡ s [MOD m] := by
  unfold residue
  split
  · rename_i zero
    rw [zero]
  · rename_i some
    have shifted : (s - 1) % m + 1 ≡ s - 1 + 1 [MOD m] := (Nat.mod_modEq _ _).add_right 1
    rwa [Nat.sub_add_cancel (by omega)] at shifted

theorem residue_eq_self {m s : Nat} (small : s ≤ m) : residue m s = s := by
  unfold residue
  split
  · rename_i zero
    exact zero.symm
  · rw [Nat.mod_eq_of_lt (by omega)]
    omega

theorem residue_eq_zero_iff {m s : Nat} : residue m s = 0 ↔ s = 0 := by
  unfold residue
  split <;> simp_all

theorem sum_concat (xs : List (BitVec w)) (x : BitVec w) : sum (xs ++ [x]) = add (sum xs) x := by
  rw [sum, sum, List.foldl_append, List.foldl_cons, List.foldl_nil]

theorem sum_singleton (x : BitVec w) : sum [x] = x := zero_add x

theorem total_concat (xs : List (BitVec w)) (x : BitVec w) :
    total (xs ++ [x]) = total xs + x.toNat := by
  simp [total]

/-- A sum is the residue of the plain total. -/
theorem sum_toNat (xs : List (BitVec w)) : (sum xs).toNat = residue (2 ^ w - 1) (total xs) := by
  have positive : 0 < 2 ^ w := Nat.two_pow_pos w
  induction xs using List.reverseRecOn with
  | nil => simp [sum, total, residue]
  | append_singleton xs x ih =>
    have bound := x.isLt
    rw [sum_concat, add_toNat, ih, total_concat, residue_add (by omega)]
    split <;> split <;> omega

theorem total_eq_zero_iff (xs : List (BitVec w)) : total xs = 0 ↔ ∀ x ∈ xs, x = 0#w := by
  induction xs with
  | nil => simp [total]
  | cons x xs ih =>
    rw [total] at ih ⊢
    rw [List.map_cons, List.sum_cons, Nat.add_eq_zero_iff, ih, List.forall_mem_cons, BitVec.toNat_eq,
      BitVec.toNat_ofNat, Nat.zero_mod]

theorem sum_eq_zero_iff (xs : List (BitVec w)) : sum xs = 0#w ↔ total xs = 0 := by
  rw [BitVec.toNat_eq, sum_toNat, BitVec.toNat_ofNat, Nat.zero_mod, residue_eq_zero_iff]

/-- A map that scales the terms modulo `2 ^ w - 1`, and keeps zero alone at zero, may be put
    off to the sum. -/
theorem sum_map_scale {f : BitVec w → BitVec w} {k : Nat}
    (scales : ∀ x, (f x).toNat ≡ k * x.toNat [MOD 2 ^ w - 1]) (zero : ∀ x, f x = 0#w ↔ x = 0#w)
    (xs : List (BitVec w)) : sum (xs.map f) = f (sum xs) := by
  have totals : total (xs.map f) ≡ k * total xs [MOD 2 ^ w - 1] := by
    induction xs with
    | nil => exact Nat.ModEq.refl _
    | cons x xs ih =>
      simp only [total, List.map_cons, List.sum_cons, Nat.mul_add] at ih ⊢
      exact (scales x).add ih
  have bound := (f (sum xs)).isLt
  have own : residue (2 ^ w - 1) (f (sum xs)).toNat = (f (sum xs)).toNat := residue_eq_self (by omega)
  apply BitVec.eq_of_toNat_eq
  rw [sum_toNat, ← own]
  apply residue_congr
  · have summed : (sum xs).toNat ≡ total xs [MOD 2 ^ w - 1] := by
      rw [sum_toNat]
      exact residue_modEq _ _
    exact totals.trans ((summed.mul_left k).symm.trans (scales (sum xs)).symm)
  · have none : (f (sum xs)).toNat = 0 ↔ f (sum xs) = 0#w := by
      rw [BitVec.toNat_eq, BitVec.toNat_ofNat, Nat.zero_mod]
    rw [none, zero, sum_eq_zero_iff, total_eq_zero_iff, total_eq_zero_iff, List.forall_mem_map]
    exact forall₂_congr fun x _ => zero x

/-! ## Sums of all ones -/

theorem residue_eq_self_iff {m s : Nat} (positive : 0 < m) : residue m s = m ↔ s ≠ 0 ∧ m ∣ s := by
  have same := residue_modEq m s
  have bound : residue m s ≤ m := by
    unfold residue
    have below := Nat.mod_lt (s - 1) positive
    split <;> omega
  constructor
  · intro full
    rw [full] at same
    refine ⟨fun zero => ?_, (Nat.modEq_zero_iff_dvd.mp (same.symm.trans ?_))⟩
    · have none := residue_eq_zero_iff (m := m).mpr zero
      omega
    · exact Nat.modEq_zero_iff_dvd.mpr (Nat.dvd_refl m)
  · rintro ⟨some, divides⟩
    have multiple := Nat.modEq_zero_iff_dvd.mp (same.trans (Nat.modEq_zero_iff_dvd.mpr divides))
    have nonzero : residue m s ≠ 0 := fun zero => some (residue_eq_zero_iff.mp zero)
    exact Nat.le_antisymm bound (Nat.le_of_dvd (Nat.pos_of_ne_zero nonzero) multiple)

theorem sum_eq_allOnes_iff (wide : 0 < w) (xs : List (BitVec w)) :
    sum xs = BitVec.allOnes w ↔ total xs ≠ 0 ∧ 2 ^ w - 1 ∣ total xs := by
  have positive : 1 < 2 ^ w := Nat.one_lt_two_pow (by omega)
  rw [BitVec.toNat_eq, sum_toNat, BitVec.toNat_allOnes, residue_eq_self_iff (by omega)]

theorem total_set {xs : List (BitVec w)} {k : Nat} (inside : k < xs.length) (x : BitVec w) :
    total (xs.set k x) + xs[k].toNat = total xs + x.toNat := by
  induction xs generalizing k with
  | nil => cases inside
  | cons first xs ih =>
    cases k with
    | zero =>
      simp only [total, List.set_cons_zero, List.map_cons, List.sum_cons, List.getElem_cons_zero]
      omega
    | succ k =>
      have rest := ih (Nat.lt_of_succ_lt_succ inside)
      simp only [total, List.set_cons_succ, List.map_cons, List.sum_cons, List.getElem_cons_succ] at rest ⊢
      omega

/-- The complement of a sum, put in the place of a zero, completes the sum to all ones. -/
theorem sum_set_complement (wide : 0 < w) {xs : List (BitVec w)} {k : Nat} (inside : k < xs.length)
    (zero : xs[k] = 0#w) : sum (xs.set k (~~~ sum xs)) = BitVec.allOnes w := by
  have positive : 1 < 2 ^ w := Nat.one_lt_two_pow (by omega)
  have bound := (sum xs).isLt
  have put := total_set inside (~~~ sum xs)
  rw [zero, BitVec.toNat_ofNat, Nat.zero_mod, Nat.add_zero, BitVec.toNat_not] at put
  rw [sum_eq_allOnes_iff wide, put]
  constructor
  · intro none
    have empty := (sum_eq_zero_iff xs).mpr (by omega)
    rw [empty, BitVec.toNat_ofNat, Nat.zero_mod] at none
    omega
  · have same : total xs ≡ (sum xs).toNat [MOD 2 ^ w - 1] := by
      rw [sum_toNat]
      exact (residue_modEq _ _).symm
    have completed := same.add_right (2 ^ w - 1 - (sum xs).toNat)
    rw [Nat.add_sub_cancel' (by omega)] at completed
    exact Nat.modEq_zero_iff_dvd.mp (completed.trans (Nat.modEq_zero_iff_dvd.mpr (Nat.dvd_refl _)))

/-- A sum of all ones does not stay so when one term changes, unless between zero and all ones. -/
theorem sum_set_ne (wide : 0 < w) {xs : List (BitVec w)} {k : Nat} (inside : k < xs.length)
    (full : sum xs = BitVec.allOnes w) {x : BitVec w} (changed : x ≠ xs[k])
    (zeros : ¬ ((xs[k] = 0#w ∧ x = BitVec.allOnes w) ∨ (xs[k] = BitVec.allOnes w ∧ x = 0#w))) :
    sum (xs.set k x) ≠ BitVec.allOnes w := by
  intro still
  obtain ⟨-, before⟩ := (sum_eq_allOnes_iff wide xs).mp full
  obtain ⟨-, after⟩ := (sum_eq_allOnes_iff wide _).mp still
  have put := total_set inside x
  have old := xs[k].isLt
  have new := x.isLt
  have different : xs[k].toNat ≠ x.toNat := fun same => changed (BitVec.eq_of_toNat_eq same).symm
  -- the two terms agree modulo 2 ^ w - 1, and both are at most that
  have same : xs[k].toNat ≡ x.toNat [MOD 2 ^ w - 1] := by
    have both := (Nat.modEq_zero_iff_dvd.mpr after).trans (Nat.modEq_zero_iff_dvd.mpr before).symm
    exact Nat.ModEq.add_left_cancel both (put ▸ Nat.ModEq.refl _)
  rcases Nat.lt_or_gt_of_ne different with grown | shrunk
  · have gap := Nat.le_of_dvd (by omega) ((Nat.modEq_iff_dvd' (by omega)).mp same)
    refine zeros (.inl ⟨BitVec.eq_of_toNat_eq ?_, BitVec.eq_of_toNat_eq ?_⟩)
    · rw [BitVec.toNat_ofNat, Nat.zero_mod]
      omega
    · rw [BitVec.toNat_allOnes]
      omega
  · have gap := Nat.le_of_dvd (by omega) ((Nat.modEq_iff_dvd' (by omega)).mp same.symm)
    refine zeros (.inr ⟨BitVec.eq_of_toNat_eq ?_, BitVec.eq_of_toNat_eq ?_⟩)
    · rw [BitVec.toNat_allOnes]
      omega
    · rw [BitVec.toNat_ofNat, Nat.zero_mod]
      omega

/-! ## A register and a carry flag -/

/-- `register` and `carry` hold `value` between them. -/
def Holds (register : BitVec w) (carry : Bool) (value : BitVec w) : Prop :=
  register.toNat + carry.toNat = value.toNat

/-- The carry never stands beside a register of all ones. -/
theorem Holds.not_full {register value : BitVec w} {carry : Bool} (holds : Holds register carry value) :
    ¬ (carry = true ∧ register = BitVec.allOnes w) := by
  rintro ⟨rfl, rfl⟩
  have bound := value.isLt
  have positive : 0 < 2 ^ w := Nat.two_pow_pos w
  simp only [Holds, BitVec.toNat_allOnes, Bool.toNat_true] at holds
  omega

theorem Holds.addCarry {register value : BitVec w} {carry : Bool} (holds : Holds register carry value)
    (x : BitVec w) :
    Holds (BitVec.ofNat w (register.toNat + x.toNat + carry.toNat))
      (decide (2 ^ w ≤ register.toNat + x.toNat + carry.toNat)) (add value x) := by
  have bound := value.isLt
  have small := x.isLt
  unfold Holds at holds ⊢
  rw [BitVec.toNat_ofNat, add_toNat]
  -- the sum carries out exactly when what is held and `x` do
  by_cases carries : 2 ^ w ≤ register.toNat + x.toNat + carry.toNat
  · rw [decide_eq_true carries, if_neg (by omega), Nat.mod_eq_sub_mod carries,
      Nat.mod_eq_of_lt (by omega), Bool.toNat_true]
    omega
  · rw [decide_eq_false carries, if_pos (by omega), Nat.mod_eq_of_lt (by omega), Bool.toNat_false]
    omega

end TestPrograms.Foundations.OnesComplement
