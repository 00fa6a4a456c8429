import Mathlib.Data.Nat.ModEq
import TestPrograms.Foundations.Scanf
import TestPrograms.Genpipe.DriverCalls

/-! # What `count` prints

`count` reads two records from its input, with ten seconds between, and prints the first number
of each and the difference.  Its input is the device: every read of it is one record.
-/

namespace TestPrograms.Genpipe

open TestPrograms.Foundations
open TestPrograms.Foundations.Decimal (Ends ends_cons)
open TestPrograms.Foundations.Scanf (Directive Scanned isSpace scan scanf numbers)

namespace Count

/-- What is not set by the program: its variables before the first store, and the upper halves
    of the registers that it passes an `int` in. -/
structure Unset where
  start : BitVec 32
  stop : BitVec 32
  startUpper : BitVec 32
  stopUpper : BitVec 32
  diffUpper : BitVec 32

-- `printf("…%lu\n", value)`
def printed (text : String) (upper value : BitVec 32) : List Char :=
  text.toList ++ (Nat.toDigits 10 (upper ++ value).toNat ++ ['\n'])

-- `"%d,%d,%d"`
def format : List Directive := numbers [',', ',']

/-- `main` of `count.c`, on what the reads of its input return. -/
def main (unset : Unset) (reads : List (List Char)) : List Char :=
  let (first, reads) := scanf format [] reads
  let start := first.values.head?.getD unset.start
  -- `sleep(10)`
  let (second, _) := scanf format first.rest reads
  let stop := second.values.head?.getD unset.stop
  printed "start=" unset.startUpper start ++ printed "end  =" unset.stopUpper stop ++
    printed "diff =" unset.diffUpper (stop - start)

end Count

/-! ## Scanning a record -/

/-- The record is in the 37 characters that are copied. -/
def Counters.Short (v : Counters (BitVec 64)) : Prop := ∀ column, (v.get column).toNat < 10 ^ 11

theorem format_spaces {v : BitVec 64} {rest blanks : List Char} (white : ∀ c ∈ blanks, isSpace c)
    (small : v.toNat < 2 ^ 63) (ends : Ends rest) :
    Scanf.scanInt (blanks ++ (format v ++ rest)) = .value (v.setWidth 32) rest := by
  have padded : ∀ c ∈ blanks ++ List.replicate (11 - (Nat.toDigits 10 v.toNat).length) ' ', isSpace c := by
    intro c member
    obtain before | pad := List.mem_append.mp member
    · exact white c before
    · rw [List.eq_of_mem_replicate pad]
      rfl
  have found := Scanf.scanInt_numeral padded (Decimal.toDigits_isNumeral v.toNat) ends
  rw [Nat.ofDigitChars_ten_toDigits, Scanf.intOf_ofNat small, BitVec.ofNat_toNat] at found
  rw [format, List.leftpad, ← found]
  simp only [List.append_assoc]

/-- A record behind the end of another: the lower halves of its numbers are stored, and the end
    of the line is left. -/
theorem scan_sprintf {v : Counters (BitVec 64)} (short : v.Short) {blanks : List Char}
    (white : ∀ c ∈ blanks, isSpace c) :
    scan Count.format (blanks ++ sprintf v) = {
      values := [v.rxCount.setWidth 32, v.allocCount.setWidth 32, v.freeCount.setWidth 32]
      rest := ['\r', '\n'], stop := .all } := by
  have small (column : Column) : (v.get column).toNat < 2 ^ 63 :=
    Nat.lt_trans (short column) (by decide)
  have none : ∀ c ∈ ([] : List Char), isSpace c := by simp
  have comma (rest : List Char) : Ends (',' :: rest) := ends_cons.mpr (by decide)
  have line : Ends ['\r', '\n'] := ends_cons.mpr (by decide)
  have rx := format_spaces white (small .rx) (comma (format v.allocCount ++ ',' :: (format v.freeCount ++
    ['\r', '\n'])))
  have alloc := format_spaces none (small .alloc) (comma (format v.freeCount ++ ['\r', '\n']))
  have free := format_spaces none (small .free) line
  simp only [List.nil_append, Counters.get] at rx alloc free
  simp only [Count.format, numbers, sprintf, List.flatMap_cons, List.flatMap_nil, List.append_nil,
    List.cons_append, List.nil_append, scan, rx, alloc, free, if_true]

/-- The next record is read, and none after it. -/
theorem scanf_sprintf {v : Counters (BitVec 64)} (short : v.Short) {blanks : List Char}
    (white : ∀ c ∈ blanks, isSpace c) (reads : List (List Char)) :
    scanf Count.format blanks (sprintf v :: reads) = ({
      values := [v.rxCount.setWidth 32, v.allocCount.setWidth 32, v.freeCount.setWidth 32]
      rest := ['\r', '\n'], stop := .all }, reads) := by
  have scanned := scan_sprintf short white
  rw [← scanned, Count.format]
  refine Scanf.scanf_blank white ?_ reads
  rw [← Count.format, scanned]
  exact List.cons_ne_nil _ _

theorem main_records (unset : Count.Unset) {first second : Counters (BitVec 64)} (shortFirst : first.Short)
    (shortSecond : second.Short) :
    Count.main unset [sprintf first, sprintf second] =
      Count.printed "start=" unset.startUpper (first.rxCount.setWidth 32) ++
        Count.printed "end  =" unset.stopUpper (second.rxCount.setWidth 32) ++
        Count.printed "diff =" unset.diffUpper
          (second.rxCount.setWidth 32 - first.rxCount.setWidth 32) := by
  have none : ∀ c ∈ ([] : List Char), isSpace c := by simp
  have line : ∀ c ∈ ['\r', '\n'], isSpace c :=
    List.forall_mem_cons.mpr ⟨rfl, List.forall_mem_singleton.mpr rfl⟩
  simp only [Count.main, scanf_sprintf shortFirst none, scanf_sprintf shortSecond line, List.head?_cons,
    Option.getD_some]

/-! ## The records of a device -/

variable {upper upper' : Counters (BitVec 32)} {cpus : List (Counters (BitVec 64))}

theorem genpipeRead_short (short : (passed upper (counts cpus)).Short) :
    genpipeRead upper cpus none = .ok (record upper cpus, .ok 37) := by
  have rx := format_length (short .rx)
  have alloc := format_length (short .alloc)
  have free := format_length (short .free)
  simp only [Counters.get] at rx alloc free
  have length : (record upper cpus).length = 37 := by
    simp only [record, sprintf, List.length_append, List.length_cons, List.length_nil, rx, alloc, free]
  simp [genpipeRead, length, List.take_of_length_le (Nat.le_of_eq length)]

theorem passed_rxCount (upper : Counters (BitVec 32)) (cpus : List (Counters (BitVec 64))) :
    (passed upper (counts cpus)).rxCount.setWidth 32 = BitVec.ofNat 32 (totals cpus).rxCount := by
  have low := (counts_toNat cpus).1
  have lower : (passed upper (counts cpus)).rxCount.setWidth 32 = (counts cpus).rxCount :=
    BitVec.setWidth_append_eq_right
  rw [lower, ← BitVec.toNat_inj, BitVec.toNat_ofNat, low]

theorem sum_modify {α : Type} (f : α → Nat) {g : α → α} {n step : Nat}
    (counts : ∀ a, f (g a) ≡ f a + step [MOD n]) (items : List α) (i : Nat) :
    ((items.modify i g).map f).sum ≡
      (items.map f).sum + (if i < items.length then step else 0) [MOD n] := by
  induction items generalizing i with
  | nil => simp [Nat.ModEq]
  | cons item items ih =>
    cases i with
    | zero =>
      have first := (counts item).add_right (items.map f).sum
      simpa [Nat.add_right_comm] using first
    | succ i =>
      have rest := (ih i).add_left (f item)
      simpa [Nat.add_assoc] using rest

theorem bump_rxCount (column : Column) (cs : Counters (BitVec 64)) :
    (bump column cs).rxCount.toNat ≡ cs.rxCount.toNat + (if column = .rx then 1 else 0) [MOD 2 ^ 32] := by
  cases column with
  | rx =>
    have wraps : (cs.rxCount + 1).toNat ≡ cs.rxCount.toNat + 1 [MOD 2 ^ 64] := by
      rw [BitVec.toNat_add]
      exact Nat.mod_modEq _ _
    exact wraps.of_dvd (by decide)
  | alloc => rfl
  | free => rfl

theorem totals_countOp (cpus : List (Counters (BitVec 64))) (op : Nat × CallOp) :
    (totals (countOp cpus op)).rxCount ≡ (totals cpus).rxCount +
      (if decide (op.1 < cpus.length) && op.2 == .count .rx then 1 else 0) [MOD 2 ^ 32] := by
  obtain ⟨cpu, column | call⟩ := op
  · have summed := sum_modify (fun cs : Counters (BitVec 64) => cs.rxCount.toNat) (bump_rxCount column)
      cpus cpu
    refine summed.trans ?_
    by_cases inside : cpu < cpus.length
    · cases column <;> simp [inside, totals, Nat.ModEq]
    · simp [inside, totals, Nat.ModEq]
  · simp [countOp, Nat.ModEq]

/-- The sum over all processors follows the packets that are counted, up to its 32 bits. -/
theorem totals_countOps (cpus : List (Counters (BitVec 64))) (ops : List (Nat × CallOp)) :
    (totals (countOps cpus ops)).rxCount ≡ (totals cpus).rxCount +
      ops.countP (fun op => decide (op.1 < cpus.length) && op.2 == .count .rx) [MOD 2 ^ 32] := by
  induction ops generalizing cpus with
  | nil => exact Nat.ModEq.refl _
  | cons op ops ih =>
    have rest := ih (countOp cpus op)
    rw [length_countOp] at rest
    rw [countOps, List.foldl_cons, ← countOps, List.countP_cons, ← Nat.add_assoc, Nat.add_right_comm]
    exact rest.trans ((totals_countOp cpus op).add_right _)

/-! ## Counting a driver's packets -/

section

variable {m : Loaded} {symbols : Symbols} {level : BitVec 32} {memory hooked : Memory} {calls : List Called}

/-- The difference that is printed is the number of packets that the hooked driver has handed
    up between the two reads, in the lower half of the word. -/
theorem count_prints_received (unset : Count.Unset)
    (valid : ∀ c ∈ calls, c.Valid m symbols level memory)
    (exact : Exact m symbols level memory hooked)
    (injective : Function.Injective fun f : KernelFunction => f.original symbols)
    (foreign : ∀ f : KernelFunction, f.original symbols ≠ f.replacement m.own)
    (first : (passed upper (counts cpus)).Short)
    (second : (passed upper' (counts (countOps cpus (callOps m.own hooked calls)))).Short) :
    let later := countOps cpus (callOps m.own hooked calls)
    let received := calls.countP fun c => decide (c.cpu < cpus.length) && c.call.counted level .rx
    ∃ before after, genpipeRead upper cpus none = .ok (before, .ok 37) ∧
      genpipeRead upper' later none = .ok (after, .ok 37) ∧
      Count.main unset [before, after] =
        Count.printed "start=" unset.startUpper (BitVec.ofNat 32 (totals cpus).rxCount) ++
          Count.printed "end  =" unset.stopUpper (BitVec.ofNat 32 ((totals cpus).rxCount + received)) ++
          Count.printed "diff =" unset.diffUpper (BitVec.ofNat 32 received) := by
  intro later received
  refine ⟨_, _, genpipeRead_short first, genpipeRead_short second, ?_⟩
  have follows : (totals later).rxCount ≡ (totals cpus).rxCount + received [MOD 2 ^ 32] := by
    have counted := totals_countOps cpus (callOps m.own hooked calls)
    rwa [callOps_hooked valid exact injective foreign, countP_hooked (· < cpus.length),
      ← callOps_hooked valid exact injective foreign] at counted
  have stop : BitVec.ofNat 32 (totals later).rxCount =
      BitVec.ofNat 32 (totals cpus).rxCount + BitVec.ofNat 32 received := by
    rw [← BitVec.ofNat_add, ← BitVec.toNat_inj, BitVec.toNat_ofNat, BitVec.toNat_ofNat]
    exact follows
  have diff (x y : BitVec 32) : x + y - x = y := by rw [BitVec.add_comm, BitVec.add_sub_cancel]
  rw [record, record, main_records unset first second, passed_rxCount, passed_rxCount, stop, diff,
    BitVec.ofNat_add]

end

/-- Twelve packets before the first record, and two between. -/
theorem count_prints_received_sample :
    ∃ before after, genpipeRead ⟨0, 0, 0⟩ [⟨5, 0, 0⟩, ⟨7, 0, 0⟩] none = .ok (before, .ok 37) ∧
      genpipeRead ⟨0, 0, 0⟩ (countOps [⟨5, 0, 0⟩, ⟨7, 0, 0⟩]
        (callOps sampleLoaded.own sampleHooked sampleCalls)) none = .ok (after, .ok 37) ∧
      Count.main ⟨0, 0, 0, 0, 0⟩ [before, after] =
        Count.printed "start=" 0 12 ++ Count.printed "end  =" 0 14 ++ Count.printed "diff =" 0 2 := by
  refine count_prints_received ⟨0, 0, 0, 0, 0⟩ sampleCalls_valid sampleHooked_exact sample_injective
    sample_foreign ?_ ?_
  · intro column
    cases column <;> decide
  · intro column
    cases column <;> decide

end TestPrograms.Genpipe
