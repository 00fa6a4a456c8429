import TestPrograms.Foundations.ScanfProgress
import TestPrograms.Iplookup.LoadFib

/-! # Whether `load_fib` ends

A round ends the loop only at the end of the input, and one that stores nothing is followed by
another.  A character that can begin no number, and is no separator that is due, is never
consumed.
-/

namespace TestPrograms.Iplookup

open TestPrograms.Foundations
open TestPrograms.Foundations.Scanf

/-- No character of the input but white space, digits, signs, and the separator due after the
    digits of a number. -/
def Readable (input : List Char) : Prop := Clean separators { due := separators, phase := .blank } input

section

variable {rand : Nat → Word} {s s' : Loader}

theorem loadRound_input (round : loadRound rand s = some s') :
    ¬ (scan (numbers separators) s.input).Eof ∧ s'.input = (scan (numbers separators) s.input).rest := by
  rw [loadRound, format_eq] at round
  by_cases eof : (scan (numbers separators) s.input).Eof
  · rw [if_pos eof] at round
    cases round
  · rw [if_neg eof] at round
    refine ⟨eof, ?_⟩
    dsimp only at round
    split at round <;> cases Option.some.inj round <;> rfl

theorem loadRound_readable (round : loadRound rand s = some s') : Readable s.input ↔ Readable s'.input := by
  rw [(loadRound_input round).2]
  exact clean_scan separators s.input

theorem readable_of_loadRound_none (round : loadRound rand s = none) : Readable s.input := by
  rw [loadRound, format_eq] at round
  by_cases eof : (scan (numbers separators) s.input).Eof
  · exact clean_of_eof eof
  · rw [if_neg eof] at round
    dsimp only at round
    split at round <;> cases round

variable (rand) in
/-- Every round takes something off an input that can be read. -/
theorem loadLoop_ends (readable : Readable s.input) {fuel : Nat} (enough : s.input.length < fuel) :
    ∃ s', loadLoop rand fuel s = .ok s' := by
  induction fuel generalizing s with
  | zero => omega
  | succ fuel ih =>
    rw [loadLoop]
    cases round : loadRound rand s with
    | none => exact ⟨s, rfl⟩
    | some next =>
      obtain ⟨more, left⟩ := loadRound_input round
      have shorter := scan_progress readable more
      rw [← left] at shorter
      exact ih ((loadRound_readable round).mp readable) (by omega)

variable (rand) in
theorem loadLoop_stuck (unreadable : ¬ Readable s.input) (fuel : Nat) :
    loadLoop rand fuel s = .error .noFuel := by
  induction fuel generalizing s with
  | zero => rfl
  | succ fuel ih =>
    rw [loadLoop]
    cases round : loadRound rand s with
    | none => exact absurd (readable_of_loadRound_none round) unreadable
    | some next => exact ih fun readable => unreadable ((loadRound_readable round).mpr readable)

end

instance (input : List Char) : Decidable (Readable input) := decidableClean _ _ _

/-- The loop ends if and only if no character of the file is in the way of the numbers. -/
theorem loadFib_ends_iff (rand : Nat → Word) (vars : Vars) (input : List Char) :
    (∃ fuel s, loadFib rand fuel vars input = .ok s) ↔ Readable input := by
  constructor
  · rintro ⟨fuel, s, ends⟩
    by_contra unreadable
    have stuck := loadLoop_stuck rand (s := { input, vars, fibCount := 0, stores := [] }) unreadable fuel
    cases stuck.symm.trans ends
  · intro readable
    obtain ⟨s, ends⟩ := loadLoop_ends rand (s := { input, vars, fibCount := 0, stores := [] })
      readable (Nat.lt_succ_self _)
    exact ⟨_, s, ends⟩

def commentLine : List Char := ['#', ' ', 'r', 'o', 'u', 't', 'e', 's', '\n']

/-- A prefix length of 25 is skipped in every round, so the table stays empty. -/
theorem comment_read_forever :
    (⟨0, 0, 0, 0, 25⟩ : Vars).Skipped ∧
      ¬ ∃ fuel s, loadFib (fun _ => 7) fuel ⟨0, 0, 0, 0, 25⟩ commentLine = .ok s := by
  refine ⟨by decide, ?_⟩
  rintro ⟨fuel, s, ends⟩
  have unreadable : ¬ Readable commentLine := by decide
  have stuck := loadLoop_stuck (fun _ => 7) (s := ⟨commentLine, ⟨0, 0, 0, 0, 25⟩, 0, []⟩) unreadable fuel
  cases stuck.symm.trans ends

end TestPrograms.Iplookup
