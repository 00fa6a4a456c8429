import TestPrograms.IpChecksum.Internet

/-! # Storing a checksum

A checksum computed with its field at zero and then stored in it completes the sum of the
half words to all ones, which is what a receiver checks.
-/

namespace TestPrograms.IpChecksum

open TestPrograms.Foundations
open TestPrograms.Foundations.Memory
open TestPrograms.Foundations.OnesComplement

/-- The half word `k` of the header, as the processor reads and writes it. -/
def half (memory : Memory) (iph k : Nat) : BitVec 16 := BitVec.ofNat 16 (loadWord memory (iph + 2 * k) 2)

def setHalf (memory : Memory) (iph k : Nat) (value : BitVec 16) : Memory :=
  storeWord memory (iph + 2 * k) 2 value.toNat

/-- The field set to zero, and `value` stored in it after that. -/
def storeField (memory : Memory) (iph field : Nat) (value : BitVec 16) : Memory :=
  setHalf (setHalf memory iph field 0#16) iph field value

theorem half_setHalf (memory : Memory) (iph k j : Nat) (value : BitVec 16) :
    half (setHalf memory iph k value) iph j = if j = k then value else half memory iph j := by
  split
  · rename_i same
    subst same
    have stored := loadWord_storeWord memory (iph + 2 * j) 2 value.toNat
    rw [Nat.mod_eq_of_lt (show value.toNat < 256 ^ 2 from value.isLt)] at stored
    rw [half, setHalf, stored, BitVec.ofNat_toNat, BitVec.setWidth_eq]
  · rename_i other
    have kept : loadWord (setHalf memory iph k value) (iph + 2 * j) 2 =
        loadWord memory (iph + 2 * j) 2 :=
      loadWord_congr fun a first last => storeWord_frame _ _ _ _ _ (by omega)
    rw [half, kept, half]

theorem halves_eq (memory : Memory) (iph count : Nat) :
    halves memory iph count = (List.range count).map (half memory iph) := rfl

theorem length_halves (memory : Memory) (iph count : Nat) : (halves memory iph count).length = count := by
  rw [halves_eq, List.length_map, List.length_range]

theorem getElem_halves (memory : Memory) (iph : Nat) {count k : Nat}
    (inside : k < (halves memory iph count).length) :
    (halves memory iph count)[k] = half memory iph k := by
  simp only [halves_eq, List.getElem_map, List.getElem_range]

theorem halves_setHalf (memory : Memory) (iph k count : Nat) (value : BitVec 16) :
    halves (setHalf memory iph k value) iph count = (halves memory iph count).set k value := by
  apply List.ext_getElem (by rw [List.length_set, length_halves, length_halves])
  intro j _ _
  rw [getElem_halves, half_setHalf, List.getElem_set, getElem_halves]
  simp only [eq_comm]

def csum (memory : Memory) (iph : Nat) (ihl : Word) : Except Stuck (BitVec 16) :=
  (ipFastCsum memory ihl.toNat iph ihl).map Prod.fst

theorem csum_eq (memory : Memory) (iph : Nat) {ihl : Word} (long : 5 ≤ ihl.toNat) :
    csum memory iph ihl = .ok (~~~ sum (halves memory iph (2 * ihl.toNat))) := by
  rw [csum, ipFastCsum_value memory iph long]
  rfl

theorem not_eq_zero_iff (x : BitVec 16) : ~~~ x = 0#16 ↔ x = BitVec.allOnes 16 := by
  rw [← BitVec.not_inj, BitVec.not_not, BitVec.not_zero]

/-- A checksum computed with its field at zero, stored in the field, makes the whole header
    sum to nothing; any one half word changed after that shows, unless between the two zeros. -/
theorem checksum_stored (memory : Memory) (iph : Nat) {ihl : Word} (long : 5 ≤ ihl.toNat)
    {field : Nat} (within : field < 2 * ihl.toNat) :
    ∃ c, csum (setHalf memory iph field 0#16) iph ihl = .ok c ∧
      csum (storeField memory iph field c) iph ihl = .ok 0#16 ∧
      ∀ k < 2 * ihl.toNat, ∀ w', w' ≠ half (storeField memory iph field c) iph k →
        ¬ ((half (storeField memory iph field c) iph k = 0x0000#16 ∧ w' = 0xffff#16) ∨
          (half (storeField memory iph field c) iph k = 0xffff#16 ∧ w' = 0x0000#16)) →
        ∃ c', csum (setHalf (storeField memory iph field c) iph k w') iph ihl = .ok c' ∧
          c' ≠ 0#16 := by
  have place (memory : Memory) {k : Nat} (small : k < 2 * ihl.toNat) :
      k < (halves memory iph (2 * ihl.toNat)).length := by rwa [length_halves]
  let c := ~~~ sum (halves (setHalf memory iph field 0#16) iph (2 * ihl.toNat))
  have zero : half (setHalf memory iph field 0#16) iph field = 0#16 := by
    rw [half_setHalf, if_pos rfl]
  have full : sum (halves (storeField memory iph field c) iph (2 * ihl.toNat)) = BitVec.allOnes 16 := by
    rw [storeField, halves_setHalf]
    exact sum_set_complement (by decide) (place _ within) ((getElem_halves ..).trans zero)
  refine ⟨c, csum_eq _ iph long, ?_, ?_⟩
  · rw [csum_eq _ iph long, full]
    rfl
  · intro k small w' changed zeros
    refine ⟨_, csum_eq _ iph long, fun none => ?_⟩
    rw [halves_setHalf, not_eq_zero_iff] at none
    rw [← getElem_halves _ iph (place _ small)] at changed zeros
    exact sum_set_ne (by decide) (place _ small) full changed zeros none

theorem checksum_stored_sample :
    let memory : Memory := fun a => if a = 0x1000 then 0x45#8 else 0x11#8
    ∃ c, csum (setHalf memory 0x1000 5 0#16) 0x1000 5#32 = .ok c ∧
      csum (storeField memory 0x1000 5 c) 0x1000 5#32 = .ok 0#16 ∧
      ∀ k < 2 * (5#32).toNat, ∀ w', w' ≠ half (storeField memory 0x1000 5 c) 0x1000 k →
        ¬ ((half (storeField memory 0x1000 5 c) 0x1000 k = 0x0000#16 ∧ w' = 0xffff#16) ∨
          (half (storeField memory 0x1000 5 c) 0x1000 k = 0xffff#16 ∧ w' = 0x0000#16)) →
        ∃ c', csum (setHalf (storeField memory 0x1000 5 c) 0x1000 k w') 0x1000 5#32 = .ok c' ∧
          c' ≠ 0#16 :=
  checksum_stored _ 0x1000 (by decide) (by decide)

end TestPrograms.IpChecksum
