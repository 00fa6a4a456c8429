import Mathlib.Data.List.TakeWhile
import TestPrograms.Player575.Program

/-! # Playing when calls fail

The player looks at the low byte of what `read` returns and at nothing of what `write` returns.
A failed `read` leaves its error in `%rax`, where the number of the next call is taken from.
-/

namespace TestPrograms.Player575

open TestPrograms.Foundations

/-- An error number as the kernel returns it, negated. -/
structure Failure where
  errno : Nat
  positive : 0 < errno
  small : errno < 4096

def Failure.value (failure : Failure) : Reg := BitVec.ofNat 64 (2 ^ 64 - failure.errno)

-- `-ENOSYS`
def noSuchCall : Reg := BitVec.ofNat 64 (2 ^ 64 - 38)

inductive ReadResult where
  | served
  | failed (failure : Failure)

inductive WriteResult where
  | written
  -- no byte is taken
  | nothing
  | failed (failure : Failure)

/-- What the calls of one round of the loop meet. -/
structure Round where
  read : ReadResult
  write : WriteResult

section

variable (msg : BitVec 32) (round : Round)

/-- `syscall` where `read` and `write` may fail; a negative number is that of no call. -/
def syscallIn (s : Cpu) : Except Stuck Cpu :=
  if s.rax = 0 ∧ s.rdi = 0 ∧ s.rsi = msg.setWidth 64 ∧ s.rdx = 1 then
    match round.read with
    | .failed failure => .ok { s with rax := failure.value }
    | .served =>
      match s.stdin with
      | [] => .ok { s with rax := 0 }
      | byte :: stdin => .ok { s with rax := 1, msg := byte, stdin }
  else if s.rax = 1 ∧ s.rdi = 1 ∧ s.rsi = msg.setWidth 64 ∧ s.rdx = 1 then
    match round.write with
    | .failed failure => .ok { s with rax := failure.value }
    | .nothing => .ok { s with rax := 0 }
    | .written => .ok { s with rax := 1, stdout := s.stdout ++ [s.msg] }
  else if s.rax.msb then .ok { s with rax := noSuchCall }
  else .error .badSyscall

def readStepIn (s : Cpu) : Except Stuck Cpu :=
  match popRdi (pushRax (xorlEax s)) with
  | .error stuck => .error stuck
  | .ok s =>
    match syscallIn msg round (movlEsi msg (movbDl s)) with
    | .error stuck => .error stuck
    | .ok s => .ok (cmc (andbAl s))

def writeStepIn (s : Cpu) : Except Stuck Cpu := syscallIn msg round (movlEdi (decbMsg s))

end

section

variable (msg : BitVec 32)

/-- The loop, over what its rounds meet. -/
def loopIn : List Round → Cpu → Except Stuck Cpu
  | [], _ => .error .noFuel
  | round :: rounds, s =>
    match readStepIn msg round s with
    | .error stuck => .error stuck
    | .ok s =>
      if s.zf then .ok (clc s)
      else
        match writeStepIn msg round s with
        | .error stuck => .error stuck
        | .ok s => loopIn rounds s

def playerIn (rounds : List Round) (input : List Byte) : Except Stuck Cpu := loopIn msg rounds (start input)

end

/-! ## What counts of a round -/

def Round.served (round : Round) : Bool :=
  match round.read with
  | .served => true
  | .failed _ => false

def Round.written (round : Round) : Bool :=
  match round.write with
  | .written => true
  | .nothing | .failed _ => false

/-- The low byte of the error is zero, as at the end of the file. -/
def Round.quits (round : Round) : Bool :=
  match round.read with
  | .served => false
  | .failed failure => failure.errno % 256 = 0

def heard (rounds : List Round) : List Round :=
  (rounds.takeWhile fun round => !round.quits).filter Round.served

/-- The bytes whose `write` has taken them, decoded. -/
def played (input : List Byte) (rounds : List Round) : List Byte :=
  ((input.zip rounds).filter fun step => step.2.written).map fun step => step.1 - 1#8

/-! ## One round -/

theorem Failure.value_toNat (failure : Failure) : failure.value.toNat = 2 ^ 64 - failure.errno := by
  have positive := failure.positive
  rw [value, BitVec.toNat_ofNat, Nat.mod_eq_of_lt (by omega)]

theorem Failure.value_msb (failure : Failure) : failure.value.msb = true := by
  have small := failure.small
  rw [BitVec.msb_eq_decide, decide_eq_true_eq, failure.value_toNat]
  omega

theorem Failure.value_low (failure : Failure) :
    failure.value.setWidth 8 = 0#8 ↔ failure.errno % 256 = 0 := by
  have small := failure.small
  rw [← BitVec.toNat_inj, BitVec.toNat_setWidth, failure.value_toNat, BitVec.toNat_ofNat]
  omega

/-- The count is set to 1 by its low byte alone, which is enough in every round. -/
def Ready (s : Cpu) : Prop := s.rdx = 0 ∨ s.rdx = 1

section

variable {msg : BitVec 32} {round : Round} {s : Cpu}

theorem movbDl_ready (ready : Ready s) : movbDl s = { s with rdx := 1 } := by
  cases ready with
  | inl zero => simp [movbDl, zero]
  | inr one => simp [movbDl, one]

theorem readStepIn_eq (ready : Ready s) :
    readStepIn msg round s =
      (syscallIn msg round { s with
        rax := 0, rdi := 0, rsi := msg.setWidth 64, rdx := 1, zf := true, cf := false }).map
        fun s => cmc (andbAl s) := by
  simp only [readStepIn, xorlEax, pushRax, popRdi]
  rw [movbDl_ready (by exact ready)]
  simp only [movlEsi]
  cases syscallIn msg round _ with
  | error stuck => rfl
  | ok s => rfl

theorem readStepIn_failed {failure : Failure} (ready : Ready s) (fails : round.read = .failed failure) :
    readStepIn msg round s = .ok { s with
      rax := failure.value, rdi := 0, rsi := msg.setWidth 64, rdx := 1
      zf := failure.errno % 256 = 0, cf := true } := by
  simp [readStepIn_eq ready, syscallIn, fails, Except.map, andbAl, cmc, failure.value_low]

theorem readStepIn_end (ready : Ready s) (serves : round.read = .served) (input : s.stdin = []) :
    readStepIn msg round s = .ok { s with
      rax := 0, rdi := 0, rsi := msg.setWidth 64, rdx := 1, zf := true, cf := true } := by
  simp [readStepIn_eq ready, syscallIn, serves, input, Except.map, andbAl, cmc]

theorem readStepIn_byte {byte : Byte} {rest : List Byte} (ready : Ready s)
    (serves : round.read = .served) (input : s.stdin = byte :: rest) :
    readStepIn msg round s = .ok { s with
      rax := 1, rdi := 0, rsi := msg.setWidth 64, rdx := 1, zf := false, cf := true, msg := byte
      stdin := rest } := by
  simp [readStepIn_eq ready, syscallIn, serves, input, Except.map, andbAl, cmc]

/-- After a `read` that has got a byte, the byte less one goes out if the `write` takes it. -/
theorem writeStepIn_byte (msg : BitVec 32) (round : Round) (s : Cpu) (number : s.rax = 1)
    (address : s.rsi = msg.setWidth 64) (count : s.rdx = 1) :
    ∃ next, writeStepIn msg round s = .ok next ∧ Ready next ∧ next.stdin = s.stdin ∧
      next.stdout = s.stdout ++ if round.written then [s.msg - 1#8] else [] := by
  cases write : round.write with
  | written =>
    simp [writeStepIn, movlEdi, decbMsg, syscallIn, Round.written, Ready, number, address, count, write]
  | nothing =>
    simp [writeStepIn, movlEdi, decbMsg, syscallIn, Round.written, Ready, number, address, count, write]
  | failed failure =>
    simp [writeStepIn, movlEdi, decbMsg, syscallIn, Round.written, Ready, number, address, count, write]

/-- The error of a failed `read` is the number of no call. -/
theorem writeStepIn_failed (msg : BitVec 32) (round : Round) (s : Cpu) {failure : Failure}
    (number : s.rax = failure.value) (count : s.rdx = 1) :
    ∃ next, writeStepIn msg round s = .ok next ∧ Ready next ∧ next.stdin = s.stdin ∧
      next.stdout = s.stdout := by
  have negative := failure.value_msb
  have zero : failure.value ≠ 0#64 := fun same => by simp [same] at negative
  have one : failure.value ≠ 1#64 := fun same => by simp [same] at negative
  simp [writeStepIn, movlEdi, decbMsg, syscallIn, number, zero, one, negative, Ready, count]

/-! ## The loop -/

theorem loopIn_stops {rounds : List Round} {next : Cpu} (reads : readStepIn msg round s = .ok next)
    (ends : next.zf = true) : loopIn msg (round :: rounds) s = .ok (clc next) := by
  simp only [loopIn, reads, ends, if_true]

theorem loopIn_goes {rounds : List Round} {got next : Cpu} (reads : readStepIn msg round s = .ok got)
    (more : got.zf = false) (writes : writeStepIn msg round got = .ok next) :
    loopIn msg (round :: rounds) s = loopIn msg rounds next := by
  simp only [loopIn, reads, more, Bool.false_eq_true, if_false, writes]

end

section

variable {round : Round} {rounds : List Round}

theorem heard_quits (quits : round.quits = true) : heard (round :: rounds) = [] := by
  simp [heard, quits]

theorem heard_served (serves : round.read = .served) : heard (round :: rounds) = round :: heard rounds := by
  simp [heard, Round.quits, Round.served, serves]

theorem heard_failed {failure : Failure} (fails : round.read = .failed failure)
    (goes : round.quits = false) : heard (round :: rounds) = heard rounds := by
  simp [heard, goes, Round.served, fails]

theorem played_cons (byte : Byte) (rest : List Byte) :
    played (byte :: rest) (round :: rounds) =
      (if round.written then [byte - 1#8] else []) ++ played rest rounds := by
  simp only [played, List.zip_cons_cons, List.filter_cons]
  split
  · rfl
  · rfl

end

/-- The rounds are enough for an end. -/
def Ends (rounds : List Round) (input : List Byte) : Prop :=
  (∃ round ∈ rounds, round.quits = true) ∨ input.length < (heard rounds).length

theorem loopIn_spec (msg : BitVec 32) (rounds : List Round) {s : Cpu} (ready : Ready s) :
    (Ends rounds s.stdin ∧ ∃ final, loopIn msg rounds s = .ok final ∧
        final.stdout = s.stdout ++ played s.stdin (heard rounds) ∧
        final.stdin = s.stdin.drop (heard rounds).length) ∨
      ¬ Ends rounds s.stdin ∧ loopIn msg rounds s = .error .noFuel := by
  induction rounds generalizing s with
  | nil => exact .inr ⟨by simp [Ends, heard], rfl⟩
  | cons round rounds ih =>
    cases read : round.read with
    | failed failure =>
      have reads : readStepIn msg round s = .ok _ := readStepIn_failed ready read
      have quits : round.quits = decide (failure.errno % 256 = 0) := by rw [Round.quits, read]
      by_cases last : failure.errno % 256 = 0
      · rw [decide_eq_true last] at reads quits
        refine .inl ⟨.inl ⟨round, List.mem_cons_self, quits⟩, _, loopIn_stops reads rfl, ?_, ?_⟩
        · simp [heard_quits quits, played, clc]
        · simp [heard_quits quits, clc]
      · rw [decide_eq_false last] at reads quits
        obtain ⟨next, writes, ready', input, output⟩ := writeStepIn_failed msg round { s with
          rax := failure.value, rdi := 0, rsi := msg.setWidth 64, rdx := 1, zf := false, cf := true } rfl rfl
        have ends : Ends (round :: rounds) s.stdin ↔ Ends rounds s.stdin := by
          simp [Ends, heard_failed read quits, quits]
        rw [loopIn_goes reads rfl writes, heard_failed read quits, ends]
        have onward := ih ready'
        rwa [input, output] at onward
    | served =>
      have goes : round.quits = false := by rw [Round.quits, read]
      rw [heard_served read]
      cases input : s.stdin with
      | nil =>
        refine .inl ⟨.inr ?_, _, loopIn_stops (readStepIn_end ready read input) rfl, ?_, ?_⟩
        · simp [heard_served read]
        · simp [played, clc]
        · simp [clc, input]
      | cons byte rest =>
        obtain ⟨next, writes, ready', input', output⟩ := writeStepIn_byte msg round { s with
          rax := 1, rdi := 0, rsi := msg.setWidth 64, rdx := 1, zf := false, cf := true, msg := byte
          stdin := rest } rfl rfl rfl
        have ends : Ends (round :: rounds) (byte :: rest) ↔ Ends rounds rest := by
          simp [Ends, heard_served read, goes]
        rw [loopIn_goes (readStepIn_byte ready read input) rfl writes, ends, played_cons,
          ← List.append_assoc, List.length_cons, List.drop_succ_cons]
        have onward := ih ready'
        rwa [input', output] at onward

/-- Whatever calls fail, what is played is, in order and decoded, the bytes that were read and
    whose `write` has taken them.  The end comes with the end of the input, or with an error
    whose low byte is zero. -/
theorem failures_skip_bytes (msg : BitVec 32) (rounds : List Round) (input : List Byte) :
    (Ends rounds input ∧ ∃ final, playerIn msg rounds input = .ok final ∧
        final.stdout = played input (heard rounds) ∧
        final.stdin = input.drop (heard rounds).length) ∨
      ¬ Ends rounds input ∧ playerIn msg rounds input = .error .noFuel :=
  loopIn_spec msg rounds (s := start input) (.inl rfl)

/-! ## Where no call fails -/

def smooth : Round := { read := .served, write := .written }

section

variable {msg : BitVec 32} {s next : Cpu}

theorem syscallIn_smooth (calls : syscall msg s = .ok next) : syscallIn msg smooth s = .ok next := by
  rw [← calls]
  unfold syscall at calls ⊢
  unfold syscallIn
  split
  · rfl
  split
  · rfl
  · rename_i noRead noWrite
    rw [if_neg noRead, if_neg noWrite] at calls
    cases calls

theorem readStepIn_smooth (reads : readStep msg s = .ok next) : readStepIn msg smooth s = .ok next := by
  rw [← reads]
  unfold readStep at reads ⊢
  unfold readStepIn
  cases popped : popRdi (pushRax (xorlEax s)) with
  | error stuck => rfl
  | ok s =>
    cases called : syscall msg (movlEsi msg (movbDl s)) with
    | error stuck => simp [popped, called] at reads
    | ok next => simp only [syscallIn_smooth called, called]

/-- Every run of the loop is one in which no call fails. -/
theorem loopIn_smooth {fuel : Nat} {final : Cpu} (loops : loop msg fuel s = .ok final) :
    loopIn msg (List.replicate fuel smooth) s = .ok final := by
  induction fuel generalizing s with
  | zero => cases loops
  | succ fuel ih =>
    rw [List.replicate_succ]
    cases reads : readStep msg s with
    | error stuck => simp [loop, reads] at loops
    | ok got =>
      simp only [loop, reads] at loops
      simp only [loopIn, readStepIn_smooth reads]
      split
      · rename_i ends
        rwa [if_pos ends] at loops
      · rename_i more
        rw [if_neg more] at loops
        cases writes : syscall msg (movlEdi (decbMsg got)) with
        | error stuck => simp [writes] at loops
        | ok next =>
          simp only [writes] at loops
          simp only [writeStepIn, syscallIn_smooth writes]
          exact ih loops

end

end TestPrograms.Player575
