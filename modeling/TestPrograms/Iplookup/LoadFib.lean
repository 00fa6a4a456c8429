import TestPrograms.Foundations.Scanf
import TestPrograms.Iplookup.Table

/-! # `load_fib`

The loop that reads `ipv4.txt`.  The result of `fscanf` is compared with `EOF` only, so a round
whose line does not match goes on with what the variables have held.
-/

namespace TestPrograms.Iplookup

open TestPrograms.Foundations
open TestPrograms.Foundations.Scanf

-- `MAX_ROUTING_TABLE`
def maxRoutingTable : Nat := 1000000

/-- `int ip1, ip2, ip3, ip4, subnet` -/
structure Vars where
  ip1 : Word
  ip2 : Word
  ip3 : Word
  ip4 : Word
  subnet : Word
  deriving DecidableEq, Repr

/-- `"%d.%d.%d.%d/%d"` -/
def format : List Directive := [.d, .lit '.', .d, .lit '.', .d, .lit '.', .d, .lit '/', .d]

def Vars.store (vars : Vars) (values : List Word) : Vars where
  ip1 := values[0]?.getD vars.ip1
  ip2 := values[1]?.getD vars.ip2
  ip3 := values[2]?.getD vars.ip3
  ip4 := values[3]?.getD vars.ip4
  subnet := values[4]?.getD vars.subnet

/-- `ip1 > 255 || subnet > 24` -/
def Vars.Skipped (vars : Vars) : Prop := 255 < vars.ip1.toInt ∨ 24 < vars.subnet.toInt

instance (vars : Vars) : Decidable vars.Skipped := inferInstanceAs (Decidable (_ ∨ _))

def Vars.entry (vars : Vars) (rand : Word) : Fib where
  ip := vars.ip1 <<< 24 ||| vars.ip2 <<< 16 ||| vars.ip3 <<< 8 ||| vars.ip4
  subnet := vars.subnet.setWidth 8
  gw := (rand &&& 0xff#32).setWidth 8

structure Loader where
  input : List Char
  vars : Vars
  fibCount : Nat
  -- index and entry of each store, oldest first
  stores : List (Nat × Fib)
  deriving DecidableEq, Repr

/-- A round of the loop, `none` at `EOF`; `rand` gives the numbers in the order of the calls. -/
def loadRound (rand : Nat → Word) (s : Loader) : Option Loader :=
  let scanned := scan format s.input
  if scanned.Eof then none
  else
    let s := { s with input := scanned.rest, vars := s.vars.store scanned.values }
    if s.vars.Skipped then some s
    else some { s with
      stores := s.stores ++ [(s.fibCount, s.vars.entry (rand s.fibCount))]
      fibCount := s.fibCount + 1 }

def loadLoop (rand : Nat → Word) : Nat → Loader → Except Stuck Loader
  | 0, _ => .error .noFuel
  | fuel + 1, s =>
    match loadRound rand s with
    | none => .ok s
    | some s => loadLoop rand fuel s

/-- `vars` is what the variables hold before they are first stored to. -/
def loadFib (rand : Nat → Word) (fuel : Nat) (vars : Vars) (input : List Char) : Except Stuck Loader :=
  loadLoop rand fuel { input, vars, fibCount := 0, stores := [] }

def Loader.fib (s : Loader) : List Fib := s.stores.map Prod.snd

/-! ## Files of lines -/

/-- The separators of a line. -/
def separators : List Char := ['.', '.', '.', '/']

theorem format_eq : format = numbers separators := rfl

def Vars.values (vars : Vars) : List Word := [vars.ip1, vars.ip2, vars.ip3, vars.ip4, vars.subnet]

theorem Vars.store_values (vars line : Vars) : vars.store line.values = line := rfl

/-- A line `a.b.c.d/n`. -/
def LineOf (text : List Char) (line : Vars) : Prop := SpellsAll separators text line.values

/-- Lines `a.b.c.d/n` that end with a newline, which the last may lack. -/
inductive FileOf : List Char → List Vars → Prop where
  | nil : FileOf [] []
  | last {text : List Char} {line : Vars} (spells : LineOf text line) : FileOf text [line]
  | cons {text rest : List Char} {line : Vars} {lines : List Vars} (spells : LineOf text line)
      (file : FileOf rest lines) : FileOf (text ++ '\n' :: rest) (line :: lines)

def storeOf (rand : Nat → Word) (numbered : Vars × Nat) : Nat × Fib :=
  (numbered.2, numbered.1.entry (rand numbered.2))

/-- The lines that pass the test, numbered from `count` on, as they are stored. -/
def storesOf (rand : Nat → Word) (count : Nat) (lines : List Vars) : List (Nat × Fib) :=
  ((lines.filter fun line => ¬ line.Skipped).zipIdx count).map (storeOf rand)

section

variable (rand : Nat → Word)

theorem storesOf_skipped (count : Nat) {line : Vars} (skipped : line.Skipped) (lines : List Vars) :
    storesOf rand count (line :: lines) = storesOf rand count lines := by
  rw [storesOf, List.filter_cons_of_neg (by simpa using skipped), storesOf]

theorem storesOf_stored (count : Nat) {line : Vars} (stored : ¬ line.Skipped) (lines : List Vars) :
    storesOf rand count (line :: lines) =
      storeOf rand (line, count) :: storesOf rand (count + 1) lines := by
  rw [storesOf, List.filter_cons_of_pos (by simpa using stored), List.zipIdx_cons, List.map_cons, storesOf]

theorem loadRound_line {blanks text : List Char} (rest : List Char) {line : Vars}
    (white : ∀ c ∈ blanks, isSpace c) (spells : LineOf text line) (ends : Decimal.Ends rest) {s : Loader}
    (input : s.input = blanks ++ (text ++ rest)) :
    ∃ s', loadRound rand s = some s' ∧ s'.input = rest ∧
      ∀ lines, s'.stores ++ storesOf rand s'.fibCount lines =
        s.stores ++ storesOf rand s.fibCount (line :: lines) := by
  have scanned := scan_spells white spells ends
  rw [← format_eq, ← input] at scanned
  have more : ¬ (scan format s.input).Eof := by
    rw [scanned]
    exact fun eof => by cases eof.1
  rw [loadRound, if_neg more, scanned]
  simp only [Vars.store_values]
  by_cases skipped : line.Skipped
  · refine ⟨_, if_pos skipped, rfl, fun lines => ?_⟩
    rw [storesOf_skipped rand _ skipped]
  · refine ⟨_, if_neg skipped, rfl, fun lines => ?_⟩
    rw [storesOf_stored rand _ skipped, List.append_assoc]
    rfl

theorem loadRound_blank {s : Loader} (white : ∀ c ∈ s.input, isSpace c) : loadRound rand s = none :=
  if_pos (scan_blank separators white)

theorem loadLoop_blank {s : Loader} (white : ∀ c ∈ s.input, isSpace c) (fuel : Nat) :
    loadLoop rand (fuel + 1) s = .ok s := by
  rw [loadLoop, loadRound_blank rand white]

/-- A file of lines is read to its end, and the lines that pass the test are stored in order. -/
theorem loadLoop_file {text : List Char} {lines : List Vars} (file : FileOf text lines)
    (blanks : List Char) (white : ∀ c ∈ blanks, isSpace c) {s : Loader} (input : s.input = blanks ++ text)
    {fuel : Nat} (enough : lines.length < fuel) :
    ∃ s', loadLoop rand fuel s = .ok s' ∧ s'.stores = s.stores ++ storesOf rand s.fibCount lines := by
  obtain ⟨fuel, rfl⟩ : ∃ before, fuel = before + 1 := ⟨fuel - 1, by omega⟩
  induction file generalizing blanks s fuel with
  | nil =>
    rw [List.append_nil] at input
    exact ⟨s, loadLoop_blank rand (input ▸ white) fuel, (List.append_nil _).symm⟩
  | @last text line spells =>
    rw [List.length_singleton] at enough
    obtain ⟨fuel, rfl⟩ : ∃ before, fuel = before + 1 := ⟨fuel - 1, by omega⟩
    obtain ⟨s', round, left, stored⟩ := loadRound_line rand [] white spells rfl
      (by rw [List.append_nil]; exact input)
    have none : ∀ c ∈ s'.input, isSpace c := fun c member => absurd (left ▸ member) List.not_mem_nil
    have kept := stored []
    refine ⟨s', ?_, ?_⟩
    · rw [loadLoop, round]
      exact loadLoop_blank rand none fuel
    · rw [← kept]
      exact (List.append_nil _).symm
  | @cons text rest line lines spells file ih =>
    rw [List.length_cons] at enough
    obtain ⟨s', round, left, stored⟩ := loadRound_line rand ('\n' :: rest) white spells rfl input
    obtain ⟨fuel, rfl⟩ : ∃ before, fuel = before + 1 := ⟨fuel - 1, by omega⟩
    -- the newline is white space before the next line
    have newline : ∀ c ∈ ['\n'], isSpace c := List.forall_mem_singleton.mpr rfl
    obtain ⟨last, ends, stores⟩ := ih _ newline left fuel (by omega)
    refine ⟨last, ?_, stores.trans (stored lines)⟩
    rw [loadLoop, round]
    exact ends

theorem loadFib_file {text : List Char} {lines : List Vars} (file : FileOf text lines) (vars : Vars) :
    ∃ s, loadFib rand (lines.length + 1) vars text = .ok s ∧ s.stores = storesOf rand 0 lines :=
  loadLoop_file rand file [] (fun _ member => absurd member List.not_mem_nil) rfl
    (Nat.lt_succ_self _)

end

end TestPrograms.Iplookup
