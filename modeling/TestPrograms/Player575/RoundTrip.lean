import Mathlib.Data.List.TakeWhile
import TestPrograms.Player575.Program

/-! # Encoding and playing

The player takes one off every byte modulo 256 and ends with its input.  The encoder adds
one to every byte, but takes a zero byte for the end of the file.
-/

namespace TestPrograms.Player575

open TestPrograms.Foundations

theorem movbDl_count {s : Cpu} (count : s.rdx = 0 ∨ s.rdx = 1) :
    movbDl s = { s with rdx := 1 } := by
  rcases count with zero | one
  · simp [movbDl, zero]
  · simp [movbDl, one]

theorem readStep_end (msg : BitVec 32) {s : Cpu} (count : s.rdx = 0 ∨ s.rdx = 1)
    (input : s.stdin = []) :
    ∃ next, readStep msg s = .ok next ∧ next.zf = true ∧ next.stdout = s.stdout := by
  simp only [readStep, xorlEax, pushRax, popRdi]
  rw [movbDl_count (by exact count)]
  simp [movlEsi, syscall, andbAl, cmc, input]

theorem readStep_byte {msg : BitVec 32} {s : Cpu} {byte : Byte} {rest : List Byte}
    (count : s.rdx = 0 ∨ s.rdx = 1) (input : s.stdin = byte :: rest) :
    readStep msg s = .ok { s with
      rax := 1, rdi := 0, rsi := msg.setWidth 64, rdx := 1, zf := false, cf := true, msg := byte
      stdin := rest } := by
  simp only [readStep, xorlEax, pushRax, popRdi]
  rw [movbDl_count (by exact count)]
  simp [movlEsi, syscall, andbAl, cmc, input]

/-- A round copies one byte, less one; fuel for every byte and the end of the file is enough. -/
theorem loop_spec (msg : BitVec 32) {fuel : Nat} {s : Cpu} (count : s.rdx = 0 ∨ s.rdx = 1)
    (enough : s.stdin.length < fuel) :
    ∃ final, loop msg fuel s = .ok final ∧
      final.stdout = s.stdout ++ s.stdin.map fun byte => byte - 1#8 := by
  induction fuel generalizing s with
  | zero => omega
  | succ fuel ih =>
    rw [loop]
    cases input : s.stdin with
    | nil =>
      obtain ⟨next, reads, ends, out⟩ := readStep_end msg count input
      simp [reads, ends, clc, out]
    | cons byte rest =>
      rw [input, List.length_cons] at enough
      let next : Cpu := { s with
        rax := 1, rdi := 1, rsi := msg.setWidth 64, rdx := 1, zf := byte - 1#8 = 0#8, cf := true
        msg := byte - 1#8, stdin := rest, stdout := s.stdout ++ [byte - 1#8] }
      have writes : syscall msg (movlEdi (decbMsg { s with
          rax := 1, rdi := 0, rsi := msg.setWidth 64, rdx := 1, zf := false, cf := true, msg := byte
          stdin := rest })) = .ok next := by
        simp [movlEdi, decbMsg, syscall, next]
      obtain ⟨final, loops, out⟩ := ih (s := next) (.inr rfl) (by exact Nat.lt_of_succ_lt_succ enough)
      refine ⟨final, ?_, ?_⟩
      · rw [readStep_byte count input]
        simp only [Bool.false_eq_true, if_false, writes]
        exact loops
      · simpa [next] using out

theorem player_spec (msg : BitVec 32) {fuel : Nat} {input : List Byte} (enough : input.length < fuel) :
    ∃ final, player msg fuel input = .ok final ∧
      final.stdout = input.map fun byte => byte - 1#8 := by
  obtain ⟨final, loops, out⟩ := loop_spec msg (s := start input) (.inl rfl) enough
  exact ⟨final, loops, by simpa [start] using out⟩

theorem putchar_succ (c : Byte) : putchar ((c.toNat : Int) + 1) - 1#8 = c := by
  revert c
  decide

/-- The encoder writes what the player turns back into the bytes in front of the first zero. -/
theorem decode_encode (s : List Byte) :
    ((encode s).map fun byte => byte - 1#8) = s.takeWhile fun c => c ≠ 0#8 := by
  induction s with
  | nil => rfl
  | cons c s ih =>
    have positive : ((c.toNat : Int) > 0) ↔ c ≠ 0#8 := by
      rw [ne_eq, BitVec.toNat_eq, BitVec.toNat_ofNat]
      omega
    by_cases zero : c = 0#8
    · simp [encode, zero]
    · simp only [encode, positive.mpr zero, if_true, List.map_cons, putchar_succ, ih]
      simp [zero]

/-- Playing what was encoded gives the byte string back, and ends, if and only if it has no
    zero byte. -/
theorem movie_round_trip_iff (msg : BitVec 32) (s : List Byte) {fuel : Nat}
    (enough : (encode s).length < fuel) :
    (∃ final, player msg fuel (encode s) = .ok final ∧ final.stdout = s) ↔ 0#8 ∉ s := by
  obtain ⟨final, plays, out⟩ := player_spec msg enough
  rw [decode_encode] at out
  have whole : final.stdout = s ↔ 0#8 ∉ s := by
    rw [out, List.takeWhile_eq_self_iff]
    constructor
    · intro all member
      simpa using all 0#8 member
    · intro none c member
      have other : c ≠ 0#8 := fun same => none (same ▸ member)
      simpa using other
  constructor
  · rintro ⟨last, plays', same⟩
    cases plays.symm.trans plays'
    exact whole.mp same
  · exact fun none => ⟨final, plays, whole.mpr none⟩

/-- A movie of one zero byte is encoded as nothing. -/
theorem zero_byte_lost :
    ¬ ∃ final, player 0x600000#32 2 (encode [0#8]) = .ok final ∧ final.stdout = [0#8] := by
  rintro ⟨final, plays, out⟩
  have silent : (player 0x600000#32 2 (encode [0#8])).map Cpu.stdout = .ok [] := by decide
  rw [plays] at silent
  simp [Except.map, out] at silent

theorem movie_round_trip_sample :
    (∃ final, player 0x600000#32 3 (encode [0x41#8, 0xff#8]) = .ok final ∧
      final.stdout = [0x41#8, 0xff#8]) ↔ 0#8 ∉ [0x41#8, 0xff#8] :=
  movie_round_trip_iff 0x600000#32 [0x41#8, 0xff#8] (by decide)

end TestPrograms.Player575
