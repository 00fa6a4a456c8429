import TestPrograms.Devmem.Kmem

/-! # Addresses through the position of `kmem`

`kmem_llseek` keeps the low 60 bits of the position, so that it never looks negative;
`kmem_read` and `kmem_write` fill the top nibble again from the nibble below it.  The
low 60 bits are kept by addition, so over any run of seeks the position is the target
modulo 2^60, and every canonical address survives the trip.
-/

namespace TestPrograms.Devmem

open TestPrograms.Foundations
open TestPrograms.Linux

/-- Where a seek aims, in 64-bit arithmetic. -/
def seekTarget (target : BitVec 64) : BitVec 64 × Whence → BitVec 64
  | (offset, .seekSet) => offset
  | (offset, .seekCur) => target + offset
  | (offset, .seekEnd) => BitVec.ofNat 64 (2 ^ 64 - 1) + offset
  | (_, .other) => target

def afterSeeks (filp : File) (seeks : List (BitVec 64 × Whence)) : File :=
  seeks.foldl (fun filp seek => (kmemLlseek filp seek.1 seek.2).1) filp

def positionOf (target : BitVec 64) : BitVec 64 := target &&& 0x0fffffffffffffff#64

theorem toNat_positionOf (target : BitVec 64) :
    (positionOf target).toNat = target.toNat % 2 ^ 60 := by
  rw [positionOf, BitVec.toNat_and]
  exact Nat.and_two_pow_sub_one_eq_mod target.toNat 60

theorem kmemLlseek_position (target offset : BitVec 64) (whence : Whence) :
    kmemLlseek { fPos := positionOf target } offset whence =
      ({ fPos := positionOf (seekTarget target (offset, whence)) },
        positionOf (seekTarget target (offset, whence))) := by
  cases whence with
  | seekSet => rfl
  | seekEnd => rfl
  | seekCur =>
    -- the low 60 bits of a sum depend on those of the summands only
    have sums : positionOf (positionOf target + offset) = positionOf (target + offset) := by
      apply BitVec.eq_of_toNat_eq
      rw [toNat_positionOf, toNat_positionOf, BitVec.toNat_add, BitVec.toNat_add, toNat_positionOf]
      omega
    change ((⟨positionOf (positionOf target + offset)⟩ : File), positionOf (positionOf target + offset)) = _
    rw [sums]
    rfl
  | other =>
    have again : positionOf (positionOf target) = positionOf target := by
      apply BitVec.eq_of_toNat_eq
      rw [toNat_positionOf, toNat_positionOf]
      omega
    change ((⟨positionOf (positionOf target)⟩ : File), positionOf (positionOf target)) = _
    rw [again]
    rfl

theorem afterSeeks_position (target : BitVec 64) (seeks : List (BitVec 64 × Whence)) :
    afterSeeks { fPos := positionOf target } seeks =
      { fPos := positionOf (seeks.foldl seekTarget target) } := by
  induction seeks generalizing target with
  | nil => rfl
  | cons seek seeks ih =>
    rw [List.foldl_cons, ← ih, afterSeeks, List.foldl_cons, kmemLlseek_position]
    rfl

/-! ## The top nibble -/

theorem nibbleMask_getLsbD (i : Nat) (bound : i < 64) :
    (0x0f00000000000000#64).getLsbD i = decide (56 ≤ i ∧ i < 60) := by
  have all : ∀ j : Fin 64, (0x0f00000000000000#64).getLsbD j = decide (56 ≤ j.val ∧ j.val < 60) := by
    decide
  exact all ⟨i, bound⟩

theorem topMask_getLsbD (i : Nat) (bound : i < 64) :
    (0xf000000000000000#64).getLsbD i = decide (60 ≤ i) := by
  have all : ∀ j : Fin 64, (0xf000000000000000#64).getLsbD j = decide (60 ≤ j.val) := by decide
  exact all ⟨i, bound⟩

theorem positionOf_getLsbD (target : BitVec 64) (i : Nat) :
    (positionOf target).getLsbD i = (target.getLsbD i && decide (i < 60)) := by
  have mask : (0x0fffffffffffffff : Nat) = 2 ^ 60 - 1 := rfl
  rw [positionOf, BitVec.getLsbD_and, BitVec.getLsbD_ofNat, mask, Nat.testBit_two_pow_sub_one]
  by_cases low : i < 60
  · simp [low, show i < 64 by omega]
  · simp [low]

theorem getLsbD_eq_false_of_lt {address : BitVec 64} (low : address.toNat < 2 ^ 56) {i : Nat}
    (high : 56 ≤ i) : address.getLsbD i = false :=
  Nat.testBit_lt_two_pow (Nat.lt_of_lt_of_le low (Nat.pow_le_pow_right (by decide) high))

theorem kmemAddr_positionOf_low {target : BitVec 64} (low : target.toNat < 2 ^ 56) :
    kmemAddr (positionOf target) = target := by
  -- bits 60 to 63 are clear, so nothing is cut off, and bits 56 to 59 are, so the test fails
  have same : positionOf target = target := by
    apply BitVec.eq_of_toNat_eq
    rw [toNat_positionOf]
    omega
  have clear : target &&& 0x0f00000000000000#64 = 0 := by
    apply BitVec.eq_of_getLsbD_eq
    intro i bound
    rw [BitVec.getLsbD_and, nibbleMask_getLsbD i bound]
    by_cases high : 56 ≤ i
    · simp [getLsbD_eq_false_of_lt low high]
    · simp [high]
  rw [kmemAddr, same, clear]
  rfl

theorem kmemAddr_positionOf_high {target : BitVec 64} (high : 2 ^ 64 - 2 ^ 56 ≤ target.toNat) :
    kmemAddr (positionOf target) = target := by
  -- bits 56 to 59 are set, so the test fires, and the bits cut off were set as well
  have ones : ∀ i, 56 ≤ i → i < 64 → target.getLsbD i = true := by
    intro i low bound
    have flipped : (~~~target).toNat < 2 ^ 56 := by
      rw [BitVec.toNat_not]
      omega
    have zero := getLsbD_eq_false_of_lt flipped low
    rw [BitVec.getLsbD_not] at zero
    simpa [bound] using zero
  have fires : positionOf target &&& 0x0f00000000000000#64 ≠ 0 := by
    intro zero
    have bit := congrArg (fun x => x.getLsbD 56) zero
    simp only [BitVec.getLsbD_and, nibbleMask_getLsbD 56 (by decide), positionOf_getLsbD,
      ones 56 (by decide) (by decide)] at bit
    exact absurd bit (by decide)
  rw [kmemAddr, if_pos fires]
  apply BitVec.eq_of_getLsbD_eq
  intro i bound
  rw [BitVec.getLsbD_or, positionOf_getLsbD, topMask_getLsbD i bound]
  by_cases top : 60 ≤ i
  · simp [top, ones i (by omega) bound]
  · simp [top, show i < 60 by omega]

theorem kmemAddr_positionOf {target : BitVec 64}
    (canonical : Canonical 48 target ∨ Canonical 57 target) :
    kmemAddr (positionOf target) = target := by
  -- both layouts are clear from bit 56 up, or set
  by_cases low : target.toNat < 2 ^ 56
  · exact kmemAddr_positionOf_low low
  · refine kmemAddr_positionOf_high ?_
    cases canonical with
    | inl four =>
      simp only [Canonical, Nat.reduceSub, Nat.reducePow] at four low ⊢
      omega
    | inr five =>
      simp only [Canonical, Nat.reduceSub, Nat.reducePow] at five low ⊢
      omega

/-! ## Runs of seeks -/

/-- After any run of seeks on a file opened at `start` (a fresh one is at 0) and one seek
    more: a canonical target is what `kmem_read` and `kmem_write` rebuild, and the value
    the last seek returns is not negative. -/
theorem kmem_seeks_transport (start : BitVec 64) (seeks : List (BitVec 64 × Whence))
    (offset : BitVec 64) (whence : Whence) :
    let target := seekTarget (seeks.foldl seekTarget start) (offset, whence)
    let sought := kmemLlseek (afterSeeks { fPos := positionOf start } seeks) offset whence
    (Canonical 48 target ∨ Canonical 57 target → kmemAddr sought.1.fPos = target) ∧
      0 ≤ sought.2.toInt := by
  rw [afterSeeks_position, kmemLlseek_position]
  refine ⟨kmemAddr_positionOf, ?_⟩
  have bound := toNat_positionOf (seekTarget (seeks.foldl seekTarget start) (offset, whence))
  change 0 ≤ (positionOf _).toInt
  rw [BitVec.toInt_eq_toNat_of_lt (by omega)]
  exact Int.natCast_nonneg _

/-- A seek back by one from the top of the address space, and the address of the kernel
    image it ends at. -/
theorem kmem_seeks_transport_sample :
    kmemAddr (kmemLlseek (afterSeeks { fPos := 0 } [(0, .seekEnd)]) (-0x7effffff#64) .seekCur).1.fPos =
      0xffffffff81000000#64 :=
  (kmem_seeks_transport 0 [(0, .seekEnd)] (-0x7effffff#64) .seekCur).1 (.inl (.inr (by decide)))

end TestPrograms.Devmem
