import Mathlib.Data.List.GetD

/-! # CRC registers

A message is shifted bit by bit into a register, either to the right (the reflected form
standards are written in) or to the left (its mirror image).  The two are the same
register read in opposite directions.
-/

namespace TestPrograms.Foundations.Crc

variable {w : Nat}

/-- One message bit into the reflected register. -/
def shiftIn (poly crc : BitVec w) (bit : Bool) : BitVec w :=
  crc >>> 1 ^^^ if (crc.getLsbD 0 ^^ bit) = true then poly else 0

/-- One message bit into the mirrored register. -/
def shiftInMirrored (poly crc : BitVec w) (bit : Bool) : BitVec w :=
  crc <<< 1 ^^^ if (crc.msb ^^ bit) = true then poly else 0

theorem reverse_xor (x y : BitVec w) : (x ^^^ y).reverse = x.reverse ^^^ y.reverse := by
  apply BitVec.eq_of_getLsbD_eq
  intro i _
  simp only [BitVec.getLsbD_reverse, BitVec.getLsbD_xor, BitVec.getMsbD_xor]

theorem reverse_shiftLeft_one (x : BitVec w) : (x <<< 1).reverse = x.reverse >>> 1 := by
  apply BitVec.eq_of_getLsbD_eq
  intro i _
  simp only [BitVec.getLsbD_reverse, BitVec.getLsbD_ushiftRight, BitVec.getMsbD_shiftLeft,
    Nat.add_comm]

theorem getLsbD_reverse_zero (x : BitVec w) : x.reverse.getLsbD 0 = x.msb := by
  rw [BitVec.getLsbD_reverse, BitVec.msb]

theorem reverse_shiftInMirrored (poly crc : BitVec w) (bit : Bool) :
    (shiftInMirrored poly crc bit).reverse = shiftIn poly.reverse crc.reverse bit := by
  rw [shiftInMirrored, shiftIn, reverse_xor, reverse_shiftLeft_one, getLsbD_reverse_zero]
  split
  · rfl
  · exact congrArg _ (BitVec.reverse_eq_zero_iff.mpr rfl)

theorem reverse_foldl_shiftInMirrored (poly crc : BitVec w) (bits : List Bool) :
    (bits.foldl (shiftInMirrored poly) crc).reverse =
      bits.foldl (shiftIn poly.reverse) crc.reverse := by
  induction bits generalizing crc with
  | nil => rfl
  | cons bit bits ih => rw [List.foldl_cons, List.foldl_cons, ih, reverse_shiftInMirrored]

/-! ## Linearity -/

theorem getLsbD_shiftIn (poly crc : BitVec w) (bit : Bool) (i : Nat) :
    (shiftIn poly crc bit).getLsbD i =
      (crc.getLsbD (i + 1) ^^ ((crc.getLsbD 0 ^^ bit) && poly.getLsbD i)) := by
  rw [shiftIn, BitVec.getLsbD_xor, BitVec.getLsbD_ushiftRight, Nat.add_comm]
  split <;> simp [*]

theorem shiftIn_xor (poly x y : BitVec w) (a b : Bool) :
    shiftIn poly (x ^^^ y) (a ^^ b) = shiftIn poly x a ^^^ shiftIn poly y b := by
  apply BitVec.eq_of_getLsbD_eq
  intro i _
  simp only [BitVec.getLsbD_xor, getLsbD_shiftIn]
  cases poly.getLsbD i with
  | false => simp only [Bool.and_false, Bool.xor_false]
  | true => simp only [Bool.and_true, Bool.xor_assoc, Bool.xor_left_comm, Bool.xor_comm]

theorem foldl_shiftIn_xor (poly x y : BitVec w) {bits bits' : List Bool}
    (same : bits.length = bits'.length) :
    (bits.zipWith xor bits').foldl (shiftIn poly) (x ^^^ y) =
      bits.foldl (shiftIn poly) x ^^^ bits'.foldl (shiftIn poly) y := by
  induction bits generalizing bits' x y with
  | nil => rw [List.eq_nil_of_length_eq_zero same.symm]; rfl
  | cons bit bits ih =>
    cases bits' with
    | nil => cases same
    | cons bit' bits' =>
      rw [List.zipWith_cons_cons, List.foldl_cons, shiftIn_xor, List.foldl_cons, List.foldl_cons,
        ih _ _ (Nat.succ.inj same)]

/-- A register that is fed its own bits moves down without feedback. -/
theorem foldl_shiftIn_self (poly crc : BitVec w) (count : Nat) :
    ((List.range count).map crc.getLsbD).foldl (shiftIn poly) crc = crc >>> count := by
  induction count with
  | zero => rw [BitVec.ushiftRight_zero]; rfl
  | succ count ih =>
    rw [List.range_succ, List.map_append, List.foldl_append, ih]
    apply BitVec.eq_of_getLsbD_eq
    intro i _
    simp only [List.map_singleton, List.foldl_cons, List.foldl_nil, getLsbD_shiftIn,
      BitVec.getLsbD_ushiftRight, Nat.add_zero, Bool.xor_self, Bool.false_and, Bool.xor_false]
    rw [show count + (i + 1) = count + 1 + i by omega]

/-- Only its own bits bring a register to zero within its width: the top bit shows every
    feedback until it has moved all the way down. -/
theorem bits_of_foldl_zero {poly crc : BitVec w} (top : poly.msb = true) {bits : List Bool}
    (short : bits.length ≤ w) (zero : bits.foldl (shiftIn poly) crc = 0) {i : Nat} (inside : i < w) :
    crc.getLsbD i = bits.getD i false := by
  induction bits generalizing crc i with
  | nil =>
    rw [List.foldl_nil] at zero
    simp [zero]
  | cons bit bits ih =>
    rw [List.length_cons] at short
    rw [List.foldl_cons] at zero
    have polyTop : poly.getLsbD (w - 1) = true := by rwa [← BitVec.msb_eq_getLsbD_last]
    have quiet : (crc.getLsbD 0 ^^ bit) = false := by
      have last := ih (by omega) zero (show w - 1 < w by omega)
      have ended : bits.getD (w - 1) false = false := by
        rw [List.getD_eq_getElem?_getD, List.getElem?_eq_none (by omega)]
        rfl
      rwa [ended, getLsbD_shiftIn, BitVec.getLsbD_of_ge crc _ (by omega), Bool.false_xor, polyTop,
        Bool.and_true] at last
    cases i with
    | zero =>
      rw [List.getD_cons_zero]
      exact (bne_eq_false_iff_eq ..).mp quiet
    | succ i =>
      have next := ih (by omega) zero (show i < w by omega)
      rwa [getLsbD_shiftIn, quiet, Bool.false_and, Bool.xor_false] at next

theorem foldl_shiftIn_zeros (poly : BitVec w) (count : Nat) :
    (List.replicate count false).foldl (shiftIn poly) 0 = 0 := by
  induction count with
  | zero => rfl
  | succ count ih =>
    have still : shiftIn poly 0 false = 0 := by simp [shiftIn]
    rw [List.replicate_succ, List.foldl_cons, still, ih]

theorem zero_of_foldl_zeros {poly crc : BitVec w} (top : poly.msb = true) {count : Nat}
    (zero : (List.replicate count false).foldl (shiftIn poly) crc = 0) : crc = 0 := by
  induction count generalizing crc with
  | zero => exact zero
  | succ count ih =>
    have step : [false].foldl (shiftIn poly) crc = 0 := ih zero
    apply BitVec.eq_of_getLsbD_eq
    intro i inside
    have width : [false].length ≤ w := by
      rw [List.length_singleton]
      omega
    rw [bits_of_foldl_zero top width step inside]
    cases i <;> simp

theorem eq_replicate_of_off {bits : List Bool} (off : ∀ i, bits.getD i false = false) :
    bits = List.replicate bits.length false := by
  refine List.eq_replicate_iff.mpr ⟨rfl, fun bit member => ?_⟩
  obtain ⟨i, inside, rfl⟩ := List.getElem_of_mem member
  rw [← List.getD_eq_getElem _ false inside]
  exact off i

theorem getD_take (bits : List Bool) (count i : Nat) :
    (bits.take count).getD i false = (decide (i < count) && bits.getD i false) := by
  rw [List.getD_eq_getElem?_getD, List.getD_eq_getElem?_getD, List.getElem?_take]
  split <;> simp [*]

theorem getD_drop (bits : List Bool) (count i : Nat) :
    (bits.drop count).getD i false = bits.getD (count + i) false := by
  rw [List.getD_eq_getElem?_getD, List.getD_eq_getElem?_getD, List.getElem?_drop]

/-- Bits that are off outside a burst no longer than the register leave it zero only if they
    are all off. -/
theorem off_of_foldl_zero {poly : BitVec w} (top : poly.msb = true) {bits : List Bool} {start : Nat}
    (burst : ∀ i, i < start ∨ start + w ≤ i → bits.getD i false = false)
    (zero : bits.foldl (shiftIn poly) 0 = 0) (i : Nat) : bits.getD i false = false := by
  have before : bits.take start = List.replicate (bits.take start).length false := by
    apply eq_replicate_of_off
    intro k
    rw [getD_take]
    by_cases inside : k < start
    · rw [burst k (.inl inside), Bool.and_false]
    · rw [decide_eq_false inside, Bool.false_and]
  have behind : bits.drop (start + w) = List.replicate (bits.drop (start + w)).length false := by
    apply eq_replicate_of_off
    intro k
    rw [getD_drop]
    exact burst _ (.inr (Nat.le_add_right ..))
  have split : bits = bits.take start ++ ((bits.drop start).take w ++ bits.drop (start + w)) := by
    rw [← List.drop_drop, List.take_append_drop, List.take_append_drop]
  rw [split, before, behind, List.foldl_append, List.foldl_append, foldl_shiftIn_zeros] at zero
  have middle := zero_of_foldl_zeros top zero
  by_cases inside : start ≤ i ∧ i < start + w
  · have off := bits_of_foldl_zero top (List.length_take_le ..) middle (show i - start < w by omega)
    rw [getD_take, getD_drop, decide_eq_true (by omega), Bool.true_and,
      show start + (i - start) = i by omega] at off
    rw [← off]
    exact BitVec.getLsbD_zero
  · exact burst i (by omega)

/-- The places at which two messages of one length differ. -/
theorem getD_zipWith_xor {bits bits' : List Bool} (same : bits.length = bits'.length) (i : Nat) :
    (bits.zipWith xor bits').getD i false = (bits.getD i false ^^ bits'.getD i false) := by
  by_cases inside : i < bits.length
  · rw [List.getD_eq_getElem _ _ (by rw [List.length_zipWith]; omega), List.getElem_zipWith,
      List.getD_eq_getElem _ _ inside, List.getD_eq_getElem _ _ (by omega)]
  · rw [List.getD_eq_default _ _ (by rw [List.length_zipWith]; omega),
      List.getD_eq_default _ _ (by omega), List.getD_eq_default _ _ (by omega), Bool.xor_self]

/-- A register of width `w` tells apart messages that differ in a burst of `w` bits only. -/
theorem eq_of_foldl_burst {poly crc : BitVec w} (top : poly.msb = true) {bits bits' : List Bool}
    {start : Nat} (same : bits.length = bits'.length)
    (burst : ∀ i, i < start ∨ start + w ≤ i → bits[i]? = bits'[i]?)
    (collide : bits.foldl (shiftIn poly) crc = bits'.foldl (shiftIn poly) crc) : bits = bits' := by
  have difference : (bits.zipWith xor bits').foldl (shiftIn poly) 0 = 0 := by
    have linear := foldl_shiftIn_xor poly crc crc same
    rwa [collide, BitVec.xor_self, BitVec.xor_self] at linear
  have outside : ∀ i, i < start ∨ start + w ≤ i → (bits.zipWith xor bits').getD i false = false := by
    intro i away
    rw [getD_zipWith_xor same, List.getD_eq_getElem?_getD, List.getD_eq_getElem?_getD, burst i away, Bool.xor_self]
  apply List.ext_getElem same
  intro i inside inside'
  have off := off_of_foldl_zero top outside difference i
  rw [getD_zipWith_xor same, List.getD_eq_getElem _ _ inside, List.getD_eq_getElem _ _ inside'] at off
  exact (bne_eq_false_iff_eq ..).mp off

def bitsOf (byte : BitVec 8) : List Bool := (List.range 8).map byte.getLsbD

theorem length_flatMap_bitsOf (message : List (BitVec 8)) :
    (message.flatMap bitsOf).length = 8 * message.length := by
  induction message with
  | nil => rfl
  | cons byte message ih =>
    rw [List.flatMap_cons, List.length_append, ih, bitsOf, List.length_map, List.length_range,
      List.length_cons]
    omega

/-- CRC-32 as IEEE 802.3 has it: all ones to begin with, complemented in the end. -/
def crc32 (message : List (BitVec 8)) : BitVec 32 :=
  ~~~ (message.flatMap bitsOf).foldl (shiftIn 0xedb88320#32) 0xffffffff#32

/-- The check value, which is that of 123456789. -/
example : crc32 [0x31#8, 0x32#8, 0x33#8, 0x34#8, 0x35#8, 0x36#8, 0x37#8, 0x38#8, 0x39#8] =
    0xcbf43926#32 := by
  decide +kernel

/-- What a message followed by its CRC leaves: the register is fed its own bits complemented,
    so only ones are fed back. -/
theorem crc32_residue {message trailer : List (BitVec 8)}
    (sent : trailer.flatMap bitsOf = (List.range 32).map (crc32 message).getLsbD) :
    crc32 (message ++ trailer) = 0x2144df1c#32 := by
  let register := (message.flatMap bitsOf).foldl (shiftIn 0xedb88320#32) 0xffffffff#32
  have complemented : trailer.flatMap bitsOf =
      ((List.range 32).map register.getLsbD).zipWith xor (List.replicate 32 true) := by
    rw [sent]
    apply List.ext_getElem (by simp)
    intro i inside _
    rw [List.length_map, List.length_range] at inside
    rw [List.getElem_zipWith, List.getElem_map, List.getElem_map, List.getElem_replicate,
      List.getElem_range, Bool.xor_true]
    exact BitVec.getLsbD_not.trans (by rw [decide_eq_true inside, Bool.true_and])
  have ones : (List.replicate 32 true).foldl (shiftIn 0xedb88320#32) 0#32 = 0xdebb20e3#32 := by
    decide +kernel
  have linear := foldl_shiftIn_xor 0xedb88320#32 register 0#32
    (show ((List.range 32).map register.getLsbD).length = (List.replicate 32 true).length by simp)
  rw [BitVec.xor_zero, foldl_shiftIn_self, ones, BitVec.ushiftRight_eq_zero (Nat.le_refl 32),
    BitVec.zero_xor, ← complemented] at linear
  rw [crc32, List.flatMap_append, List.foldl_append, linear]
  decide

theorem crc32_burst {message message' : List (BitVec 8)} {start : Nat}
    (same : message.length = message'.length)
    (burst : ∀ i, i < start ∨ start + 32 ≤ i →
      (message.flatMap bitsOf)[i]? = (message'.flatMap bitsOf)[i]?)
    (collide : crc32 message = crc32 message') :
    message.flatMap bitsOf = message'.flatMap bitsOf := by
  have lengths : (message.flatMap bitsOf).length = (message'.flatMap bitsOf).length := by
    rw [length_flatMap_bitsOf, length_flatMap_bitsOf, same]
  exact eq_of_foldl_burst (by decide) lengths burst (BitVec.not_inj.mp collide)

end TestPrograms.Foundations.Crc
