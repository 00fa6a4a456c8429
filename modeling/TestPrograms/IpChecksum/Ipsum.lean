import TestPrograms.IpChecksum.FieldStored

/-! # `ipsum`

The same checksum over half words in the order of the network, in a wide register.  The carries
that have piled up are added to the low half once, and a carry out of that stays.
-/

namespace TestPrograms.IpChecksum

open TestPrograms.Foundations
open TestPrograms.Foundations.Memory
open TestPrograms.Foundations.OnesComplement

def addWords (packet : List (BitVec 16)) : BitVec 64 :=
  packet.foldl (fun sum half => sum + half.setWidth 64) 0#64

def foldOnce (sum : BitVec 64) : BitVec 64 := (sum &&& 0xffff#64) + (sum >>> 16)

/-- `main` with another `packet`; what `%X` prints, which takes 32 bits of `sum`. -/
def ipsum (packet : List (BitVec 16)) : BitVec 32 :=
  let sum := addWords packet
  let sum := foldOnce sum
  let sum := sum ^^^ 0xffff#64
  sum.setWidth 32

/-! ## Byte order -/

def byteSwap (x : BitVec 16) : BitVec 16 := x.extractLsb' 0 8 ++ x.extractLsb' 8 8

/-- The two bytes of a half word as they are sent. -/
def octets (x : BitVec 16) : List Byte := [x.extractLsb' 8 8, x.extractLsb' 0 8]

def storeNetwork (memory : Memory) (iph : Nat) (packet : List (BitVec 16)) : Memory :=
  storeBytes memory iph (packet.flatMap octets)

theorem byteSwap_toNat (x : BitVec 16) : (byteSwap x).toNat = x.toNat % 256 * 256 + x.toNat / 256 := by
  have bound := x.isLt
  have high : x.toNat / 256 % 256 = x.toNat / 256 := Nat.mod_eq_of_lt (by omega)
  rw [byteSwap, BitVec.toNat_append, BitVec.extractLsb'_toNat, BitVec.extractLsb'_toNat,
    Nat.shiftRight_eq_div_pow, Nat.shiftRight_eq_div_pow, ← Nat.shiftLeft_add_eq_or_of_lt (by omega),
    Nat.shiftLeft_eq]
  simp only [Nat.pow_zero, Nat.div_one, Nat.reducePow, high]

theorem byteSwap_byteSwap (x : BitVec 16) : byteSwap (byteSwap x) = x := by
  have bound := x.isLt
  apply BitVec.eq_of_toNat_eq
  rw [byteSwap_toNat, byteSwap_toNat]
  omega

theorem byteSwap_not (x : BitVec 16) : byteSwap (~~~x) = ~~~byteSwap x := by
  have bound := x.isLt
  apply BitVec.eq_of_toNat_eq
  rw [byteSwap_toNat, BitVec.toNat_not, BitVec.toNat_not, byteSwap_toNat]
  omega

/-- Swapping the bytes of a half word is multiplying it by 256, the carries put back. -/
theorem sum_byteSwap (packet : List (BitVec 16)) : sum (packet.map byteSwap) = byteSwap (sum packet) := by
  refine sum_map_scale (k := 256) (fun x => ?_) (fun x => ?_) packet
  · have bound := x.isLt
    rw [byteSwap_toNat]
    show _ % _ = _ % _
    omega
  · have bound := x.isLt
    rw [BitVec.toNat_eq, BitVec.toNat_eq, byteSwap_toNat, BitVec.toNat_ofNat, Nat.zero_mod]
    omega

theorem half_octets (memory : Memory) (iph : Nat) (x : BitVec 16) (rest : List Byte) :
    half (storeBytes memory iph (octets x ++ rest)) iph 0 = byteSwap x := by
  have bound := x.isLt
  have first : storeBytes memory iph (octets x ++ rest) iph = x.extractLsb' 8 8 :=
    storeBytes_inside memory iph (octets x ++ rest) 0 (Nat.zero_lt_succ _)
  have second : storeBytes memory iph (octets x ++ rest) (iph + 1) = x.extractLsb' 0 8 :=
    storeBytes_inside memory iph (octets x ++ rest) 1 (Nat.succ_lt_succ (Nat.zero_lt_succ _))
  have high : x.toNat / 256 % 256 = x.toNat / 256 := Nat.mod_eq_of_lt (by omega)
  apply BitVec.eq_of_toNat_eq
  rw [byteSwap_toNat]
  simp only [half, loadWord, loadBytes, bytesWord, Nat.mul_zero, Nat.add_zero, first, second,
    BitVec.toNat_ofNat, BitVec.extractLsb'_toNat, Nat.shiftRight_eq_div_pow, Nat.pow_zero, Nat.div_one,
    Nat.reducePow, high]
  omega

theorem halves_succ (memory : Memory) (iph count : Nat) :
    halves memory iph (count + 1) = half memory iph 0 :: halves memory (iph + 2) count := by
  have shifted (k : Nat) : half memory iph (k + 1) = half memory (iph + 2) k := by
    rw [half, half, show iph + 2 * (k + 1) = iph + 2 + 2 * k by omega]
  rw [halves_eq, halves_eq, List.range_succ_eq_map, List.map_cons, List.map_map]
  exact congrArg _ (List.map_congr_left fun k _ => shifted k)

/-- The machine loads the half words of a header in network order with their bytes swapped. -/
theorem halves_storeNetwork (memory : Memory) (iph : Nat) (packet : List (BitVec 16)) :
    halves (storeNetwork memory iph packet) iph packet.length = packet.map byteSwap := by
  induction packet generalizing memory iph with
  | nil => rfl
  | cons x packet ih =>
    rw [List.length_cons, halves_succ, List.map_cons, storeNetwork, List.flatMap_cons, half_octets]
    exact congrArg _ (ih _ (iph + 2))

/-! ## The one fold -/

theorem foldl_toNat (packet : List (BitVec 16)) (start : BitVec 64)
    (small : start.toNat + packet.length * 2 ^ 16 < 2 ^ 64) :
    (packet.foldl (fun sum half => sum + half.setWidth 64) start).toNat = start.toNat + total packet := by
  induction packet generalizing start with
  | nil => rfl
  | cons x packet ih =>
    have bound := x.isLt
    rw [List.length_cons] at small
    have step : (start + x.setWidth 64).toNat = start.toNat + x.toNat := by
      rw [BitVec.toNat_add, BitVec.toNat_setWidth, Nat.mod_eq_of_lt (show x.toNat < 2 ^ 64 by omega),
        Nat.mod_eq_of_lt (by omega)]
    rw [List.foldl_cons, ih _ (by omega), step, total, total, List.map_cons, List.sum_cons, Nat.add_assoc]

theorem addWords_toNat (packet : List (BitVec 16)) (short : packet.length < 2 ^ 48) :
    (addWords packet).toNat = total packet := by
  rw [addWords, foldl_toNat packet 0#64 (by rw [BitVec.toNat_ofNat, Nat.zero_mod]; omega),
    BitVec.toNat_ofNat, Nat.zero_mod, Nat.zero_add]

theorem total_le (packet : List (BitVec 16)) : total packet ≤ packet.length * 65535 := by
  induction packet with
  | nil => exact Nat.le_refl 0
  | cons x packet ih =>
    have bound := x.isLt
    simp only [total, List.map_cons, List.sum_cons, List.length_cons] at ih ⊢
    omega

theorem foldOnce_toNat (sum : BitVec 64) :
    (foldOnce sum).toNat = sum.toNat % 2 ^ 16 + sum.toNat / 2 ^ 16 := by
  have bound := sum.isLt
  have low : (sum &&& 0xffff#64).toNat = sum.toNat % 2 ^ 16 := by
    rw [BitVec.toNat_and]
    exact Nat.and_two_pow_sub_one_eq_mod sum.toNat 16
  rw [foldOnce, BitVec.toNat_add, low, BitVec.toNat_ushiftRight, Nat.shiftRight_eq_div_pow,
    Nat.mod_eq_of_lt (by omega)]

/-- Where no carry comes out of the fold, it is the sum with the carries put back. -/
theorem foldOnce_sum {packet : List (BitVec 16)} (short : packet.length < 2 ^ 48)
    (fits : total packet % 2 ^ 16 + total packet / 2 ^ 16 < 2 ^ 16) :
    (foldOnce (addWords packet)).setWidth 16 = sum packet := by
  have same : total packet % 2 ^ 16 + total packet / 2 ^ 16 ≡ total packet [MOD 2 ^ 16 - 1] := by
    show _ % _ = _ % _
    omega
  apply BitVec.eq_of_toNat_eq
  rw [BitVec.toNat_setWidth, foldOnce_toNat, addWords_toNat packet short, Nat.mod_eq_of_lt fits, sum_toNat,
    ← residue_congr same (by omega), residue_eq_self (by omega)]

theorem xor_high (sum : BitVec 64) : (sum ^^^ 0xffff#64).toNat / 2 ^ 16 = sum.toNat / 2 ^ 16 := by
  rw [BitVec.toNat_xor, ← Nat.shiftRight_eq_div_pow, ← Nat.shiftRight_eq_div_pow, Nat.shiftRight_xor_distrib]
  exact Nat.xor_zero _

theorem ipsum_setWidth (packet : List (BitVec 16)) :
    (ipsum packet).setWidth 16 = ~~~(foldOnce (addWords packet)).setWidth 16 := by
  rw [ipsum, BitVec.setWidth_setWidth_of_le _ (by decide), BitVec.setWidth_xor]
  exact BitVec.xor_allOnes

theorem ipsum_lt_iff {packet : List (BitVec 16)} (short : packet.length < 2 ^ 16) :
    (ipsum packet).toNat < 2 ^ 16 ↔ total packet % 2 ^ 16 + total packet / 2 ^ 16 < 2 ^ 16 := by
  have bound := total_le packet
  have value := foldOnce_toNat (addWords packet)
  have high := xor_high (foldOnce (addWords packet))
  rw [addWords_toNat packet (by omega)] at value
  rw [ipsum, BitVec.toNat_setWidth, Nat.mod_eq_of_lt (by omega), ← value]
  omega

theorem csum_storeNetwork (memory : Memory) (iph : Nat) {packet : List (BitVec 16)}
    (ten : packet.length = 10) :
    csum (storeNetwork memory iph packet) iph 5#32 = .ok (byteSwap (~~~sum packet)) := by
  have loaded := halves_storeNetwork memory iph packet
  rw [ten] at loaded
  rw [csum_eq _ iph (show 5 ≤ (5#32).toNat by decide), show 2 * (5#32).toNat = 10 from rfl, loaded,
    sum_byteSwap, byteSwap_not]

/-- The two programs agree on a header exactly if folding its total once leaves no carry. -/
theorem ipsum_eq_csum_iff (memory : Memory) (iph : Nat) (packet : List (BitVec 16))
    (ten : packet.length = 10) :
    (∃ c, csum (storeNetwork memory iph packet) iph 5#32 = .ok c ∧
        (ipsum packet).toNat < 2 ^ 16 ∧ (ipsum packet).toNat = (byteSwap c).toNat) ↔
      total packet % 2 ^ 16 + total packet / 2 ^ 16 < 2 ^ 16 := by
  rw [← ipsum_lt_iff (by omega)]
  constructor
  · rintro ⟨-, -, small, -⟩
    exact small
  · intro small
    have fits := (ipsum_lt_iff (by omega)).mp small
    have printed := ipsum_setWidth packet
    rw [foldOnce_sum (by omega) fits] at printed
    refine ⟨_, csum_storeNetwork memory iph ten, small, ?_⟩
    rw [byteSwap_byteSwap, ← printed, BitVec.toNat_setWidth, Nat.mod_eq_of_lt small]

/-- The packet of the source. -/
theorem own_packet_agrees :
    (∃ c, csum (storeNetwork (fun _ => 0) 0x1000
          [0x4500, 0x0400, 0x019b, 0x0000, 0x8011, 0x0000, 0xc0a8, 0x0101, 0xe000, 0x0001]) 0x1000 5#32 =
            .ok c ∧
        (ipsum [0x4500, 0x0400, 0x019b, 0x0000, 0x8011, 0x0000, 0xc0a8, 0x0101, 0xe000, 0x0001]).toNat <
            2 ^ 16 ∧
        (ipsum [0x4500, 0x0400, 0x019b, 0x0000, 0x8011, 0x0000, 0xc0a8, 0x0101, 0xe000, 0x0001]).toNat =
            (byteSwap c).toNat) ↔
      total [0x4500#16, 0x0400, 0x019b, 0x0000, 0x8011, 0x0000, 0xc0a8, 0x0101, 0xe000, 0x0001] % 2 ^ 16 +
        total [0x4500#16, 0x0400, 0x019b, 0x0000, 0x8011, 0x0000, 0xc0a8, 0x0101, 0xe000, 0x0001] / 2 ^ 16 <
          2 ^ 16 :=
  ipsum_eq_csum_iff _ 0x1000 _ rfl

/-- A total of `0x1ffff` folds to `0x10000`: the program prints `1FFFF`, the checksum is `0xfffe`. -/
theorem carry_out_of_fold :
    let packet : List (BitVec 16) := [0xffff, 0xffff, 0x0001, 0, 0, 0, 0, 0, 0, 0]
    ipsum packet = 0x1ffff#32 ∧
      csum (storeNetwork (fun _ => 0) 0x1000 packet) 0x1000 5#32 = .ok 0xfeff#16 ∧
      ¬ ∃ c, csum (storeNetwork (fun _ => 0) 0x1000 packet) 0x1000 5#32 = .ok c ∧
        (ipsum packet).toNat < 2 ^ 16 ∧ (ipsum packet).toNat = (byteSwap c).toNat := by
  refine ⟨by decide, by decide, ?_⟩
  rintro ⟨-, -, small, -⟩
  exact absurd small (by decide)

end TestPrograms.IpChecksum
