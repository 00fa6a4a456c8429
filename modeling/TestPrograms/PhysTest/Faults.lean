import Mathlib.Data.Set.Function
import TestPrograms.PhysTest.Range

/-! # What the memory test finds

The words that `mmap` writes and verifies, on a memory whose decoder may send several addresses
to one cell and whose cells may not keep what is stored.  The ten passes in order read every
word, so that nothing more is found at random.
-/

namespace TestPrograms.PhysTest

open TestPrograms.Foundations TestPrograms.Foundations.Memory
open TestPrograms.Foundations.Strtol (strtoul)

/-- A memory of 32-bit words: the cell that is selected for the word at an address, and what a
    cell holds after a value was stored in it. -/
structure Hardware where
  row : Nat → Nat
  keep : Nat → BitVec 32 → BitVec 32

namespace Hardware

variable (hw : Hardware)

def cell (address : Nat) : Nat := hw.row (address / 4)

def store (cells : Nat → BitVec 32) (address : Nat) (bytes : List Byte) : Nat → BitVec 32 :=
  Function.update cells (hw.cell address) (hw.keep (hw.cell address) (BitVec.ofNat 32 (bytesWord bytes)))

/-- The cells after what a run has stored. -/
def after (cells : Nat → BitVec 32) : List Event → Nat → BitVec 32
  | [] => cells
  | .store address bytes :: events => after (hw.store cells address bytes) events
  | _ :: events => after cells events

/-- What the run has loaded is what its memory held at that time. -/
def Answers (cells : Nat → BitVec 32) : List Event → Prop
  | [] => True
  | .store address bytes :: events => Answers (hw.store cells address bytes) events
  | .load address bytes :: events =>
    bytes = wordBytes 4 (cells (hw.cell address)).toNat ∧ Answers cells events
  | .print _ :: events | .mmap _ _ :: events => Answers cells events

theorem answers_append (cells : Nat → BitVec 32) (first second : List Event) :
    hw.Answers cells (first ++ second) ↔
      hw.Answers cells first ∧ hw.Answers (hw.after cells first) second := by
  induction first generalizing cells with
  | nil => simp [Answers, after]
  | cons event first ih =>
    cases event with
    | print line => exact ih cells
    | mmap length offset => exact ih cells
    | store address bytes => exact ih _
    | load address bytes => simp only [List.cons_append, Answers, after, ih, and_assoc]

/-- No stores. -/
def Quiet (events : List Event) : Prop := ∀ address bytes, .store address bytes ∉ events

theorem answers_quiet {events : List Event} (quiet : Quiet events) (cells : Nat → BitVec 32) :
    hw.Answers cells events ↔ ∀ address bytes, .load address bytes ∈ events →
      bytes = wordBytes 4 (cells (hw.cell address)).toNat := by
  induction events with
  | nil => simp [Answers]
  | cons event events ih =>
    have rest := ih fun address bytes member => quiet address bytes (List.mem_cons_of_mem _ member)
    cases event with
    | print line => simp [Answers, rest]
    | mmap length offset => simp [Answers, rest]
    | store address bytes => exact absurd List.mem_cons_self (quiet address bytes)
    | load address bytes => simp [Answers, rest, forall_and, or_imp]

end Hardware

/-! ## The first pass -/

theorem word_address (base i : Nat) : (base + 4 * i) / 4 = base / 4 + i := by omega

namespace Hardware

variable (hw : Hardware) (base : Nat)

theorem after_append (cells : Nat → BitVec 32) (first second : List Event) :
    hw.after cells (first ++ second) = hw.after (hw.after cells first) second := by
  induction first generalizing cells with
  | nil => rfl
  | cons event first ih =>
    cases event with
    | print line => exact ih cells
    | mmap length offset => exact ih cells
    | store address bytes => exact ih _
    | load address bytes => exact ih cells

def stores (count : Nat) : List Event :=
  (List.range count).map fun i => .store (base + 4 * i) (wordBytes 4 i)

theorem after_stores_succ (cells : Nat → BitVec 32) {count : Nat} (small : count < 2 ^ 32) :
    hw.after cells (stores base (count + 1)) =
      Function.update (hw.after cells (stores base count)) (hw.row (base / 4 + count))
        (hw.keep (hw.row (base / 4 + count)) (BitVec.ofNat 32 count)) := by
  rw [stores, List.range_succ, List.map_append, after_append]
  simp only [List.map_cons, List.map_nil, after, store, cell, word_address, bytesWord_wordBytes]
  rw [Nat.mod_eq_of_lt (by simpa using small)]
  rfl

/-- With a cell of its own each word is what its cell has kept of it. -/
theorem after_stores {cells : Nat → BitVec 32} {count : Nat} (small : count ≤ 2 ^ 32)
    (own : Set.InjOn (fun i => hw.row (base / 4 + i)) (Set.Iio count)) {i : Nat} (below : i < count) :
    hw.after cells (stores base count) (hw.row (base / 4 + i)) =
      hw.keep (hw.row (base / 4 + i)) (BitVec.ofNat 32 i) := by
  induction count with
  | zero => omega
  | succ count ih =>
    rw [after_stores_succ hw base cells (by omega)]
    by_cases last : i = count
    · rw [last, Function.update_self]
    · have apart : hw.row (base / 4 + i) ≠ hw.row (base / 4 + count) := fun same =>
        last (own below (Nat.lt_succ_self count) same)
      rw [Function.update_of_ne apart]
      exact ih (by omega) (own.mono (Set.Iio_subset_Iio (Nat.le_succ count))) (by omega)

/-- Every word has a cell of its own that keeps its number. -/
def Sound (count : Nat) : Prop :=
  Set.InjOn (fun i => hw.row (base / 4 + i)) (Set.Iio count) ∧
    ∀ i < count, hw.keep (hw.row (base / 4 + i)) (BitVec.ofNat 32 i) = BitVec.ofNat 32 i

/-- The words are all there after the first pass just when the memory is sound: two words in one
    cell cannot both be. -/
theorem sound_iff {cells : Nat → BitVec 32} {count : Nat} (small : count ≤ 2 ^ 32) :
    (∀ i < count, hw.after cells (stores base count) (hw.row (base / 4 + i)) = BitVec.ofNat 32 i) ↔
      hw.Sound base count := by
  constructor
  · intro all
    have own : Set.InjOn (fun i => hw.row (base / 4 + i)) (Set.Iio count) := by
      intro i below j below' same
      have value := (all i below).symm.trans ((congrArg _ same).trans (all j below'))
      have number := congrArg BitVec.toNat value
      rw [BitVec.toNat_ofNat, BitVec.toNat_ofNat, Nat.mod_eq_of_lt (Nat.lt_of_lt_of_le below small),
        Nat.mod_eq_of_lt (Nat.lt_of_lt_of_le below' small)] at number
      exact number
    exact ⟨own, fun i below => (hw.after_stores base small own below).symm.trans (all i below)⟩
  · rintro ⟨own, keeps⟩ i below
    rw [hw.after_stores base small own below, keeps i below]

end Hardware

/-! ## What is printed -/

/-- A word was found to differ. -/
def Complains (events : List Event) : Prop :=
  ∃ addr write verify, Event.print (.unmatch addr write verify) ∈ events

theorem complains_append (first second : List Event) :
    Complains (first ++ second) ↔ Complains first ∨ Complains second := by
  simp only [Complains, List.mem_append, exists_or]

namespace Mmap

variable (world : World) (base words : Nat)

theorem verify_complains (n i : Nat) :
    Complains (verify world base n i) ↔ bytesWord (bytesOf (world.loaded n) 4) ≠ i := by
  rw [verify]
  split
  · rename_i differs
    exact iff_of_true ⟨_, _, _, List.mem_cons_of_mem _ List.mem_cons_self⟩ differs
  · rename_i same
    refine iff_of_false ?_ same
    rintro ⟨addr, write, verify, printed⟩
    simp at printed

def checks : List Event :=
  (List.range 10).flatMap (sequential world base words) ++
    (List.range 10).flatMap (random world base words)

theorem verify_quiet (n i : Nat) : Hardware.Quiet (verify world base n i) := by
  intro address bytes member
  rw [verify] at member
  split at member <;> simp at member

/-- Apart from the headings of the passes, what is done is to verify some word. -/
theorem mem_checks {event : Event} (member : event ∈ checks world base words) :
    (∃ j, event = .print (.sequential j len) ∨ event = .print (.random j len)) ∨
      ∃ n, ∃ i < words, event ∈ verify world base n i ∧
        ∀ other ∈ verify world base n i, other ∈ checks world base words := by
  rw [checks, List.mem_append, List.mem_flatMap, List.mem_flatMap] at member
  obtain ⟨j, round, pass⟩ | ⟨j, round, pass⟩ := member
  · rw [sequential, List.mem_cons, List.mem_flatMap] at pass
    obtain heading | ⟨i, below, verified⟩ := pass
    · exact .inl ⟨j, .inl heading⟩
    · refine .inr ⟨_, i, List.mem_range.mp below, verified, fun other also => ?_⟩
      exact List.mem_append_left _ (List.mem_flatMap.mpr
        ⟨j, round, List.mem_cons_of_mem _ (List.mem_flatMap.mpr ⟨i, below, also⟩)⟩)
  · rw [random, List.mem_cons, List.mem_flatMap] at pass
    obtain heading | ⟨i, below, verified⟩ := pass
    · exact .inl ⟨j, .inr heading⟩
    · have some : 0 < words := Nat.zero_lt_of_lt (List.mem_range.mp below)
      refine .inr ⟨_, _, Nat.mod_lt _ some, verified, fun other also => ?_⟩
      exact List.mem_append_right _ (List.mem_flatMap.mpr
        ⟨j, round, List.mem_cons_of_mem _ (List.mem_flatMap.mpr ⟨i, below, also⟩)⟩)

theorem checks_quiet : Hardware.Quiet (checks world base words) := by
  intro address bytes member
  cases mem_checks world base words member with
  | inl heading =>
    obtain ⟨j, heading | heading⟩ := heading
    · cases heading
    · cases heading
  | inr verified =>
    obtain ⟨n, i, -, verified, -⟩ := verified
    exact verify_quiet world base n i address bytes verified

/-- The first pass in order checks every word. -/
theorem verify_checks {i : Nat} (below : i < words) {event : Event}
    (member : event ∈ verify world base (0 * words + i) i) : event ∈ checks world base words := by
  refine List.mem_append_left _ (List.mem_flatMap.mpr ⟨0, by simp, ?_⟩)
  exact List.mem_cons_of_mem _ (List.mem_flatMap.mpr ⟨i, List.mem_range.mpr below, member⟩)

variable {world base words} (hw : Hardware) (cells : Nat → BitVec 32)

theorem verify_loaded {n i : Nat}
    (answers : ∀ address bytes, .load address bytes ∈ verify world base n i →
      bytes = wordBytes 4 (cells (hw.cell address)).toNat) :
    bytesWord (bytesOf (world.loaded n) 4) = (cells (hw.row (base / 4 + i))).toNat := by
  have loaded := answers (base + 4 * i) (bytesOf (world.loaded n) 4) List.mem_cons_self
  have fits := (cells (hw.row (base / 4 + i))).isLt
  rw [loaded, bytesWord_wordBytes, Hardware.cell, word_address]
  exact Nat.mod_eq_of_lt (by simpa using fits)

/-- The checks complain exactly if a word does not have its number. -/
theorem checks_complain_iff (small : words ≤ 2 ^ 32)
    (answers : hw.Answers cells (checks world base words)) :
    Complains (checks world base words) ↔
      ¬ ∀ i < words, cells (hw.row (base / 4 + i)) = BitVec.ofNat 32 i := by
  rw [hw.answers_quiet (checks_quiet world base words)] at answers
  have number (i : Nat) (below : i < words) :
      (cells (hw.row (base / 4 + i))).toNat = i ↔ cells (hw.row (base / 4 + i)) = BitVec.ofNat 32 i := by
    rw [← BitVec.toNat_inj, BitVec.toNat_ofNat, Nat.mod_eq_of_lt (by omega)]
  constructor
  · rintro ⟨addr, write, read, printed⟩ all
    cases mem_checks world base words printed with
    | inl heading =>
      obtain ⟨j, heading | heading⟩ := heading
      · cases heading
      · cases heading
    | inr verified =>
      obtain ⟨n, i, below, verified, also⟩ := verified
      have differs := (verify_complains world base n i).mp ⟨addr, write, read, verified⟩
      have loaded := verify_loaded hw cells fun address bytes member =>
        answers address bytes (also _ member)
      rw [loaded, Ne, number i below] at differs
      exact differs (all i below)
  · intro missing
    obtain ⟨i, below, differs⟩ : ∃ i < words, cells (hw.row (base / 4 + i)) ≠ BitVec.ofNat 32 i := by
      simpa using missing
    have loaded := verify_loaded hw cells fun address bytes member =>
      answers address bytes (verify_checks world base words below member)
    rw [Ne, ← number i below, ← loaded] at differs
    obtain ⟨addr, write, read, printed⟩ := (verify_complains world base _ i).mpr differs
    exact ⟨addr, write, read, verify_checks world base words below printed⟩

theorem test_eq : test world base words =
    .print (.writing len) :: (Hardware.stores base words ++ checks world base words) := by
  rw [test, write, checks, List.cons_append, List.cons_append, List.append_assoc]
  rfl

end Mmap

def Mmap.head (st : BitVec 32) (words : Nat) : List Event :=
  .print (.mapping ((st - st % 4096#32).setWidth 64) ((len + st % 4096#32).setWidth 64)) ::
    .mmap ((len + st % 4096#32).setWidth 64) ((st - st % 4096#32).setWidth 64) ::
    .print (.writing len) :: Hardware.stores (st - st % 4096#32).toNat words

/-- The count is a variable here, as the terms are not to be evaluated at `len`. -/
theorem Mmap.main_events {world : World} (opens : world.opens) (maps : world.maps)
    (name text : List Byte) {words : Nat} (count : len.toNat / 4 = words) :
    let st : BitVec 32 := (strtoul text).setWidth 32
    (main world [name, text]).events =
      head st words ++ checks world (st - st % 4096#32).toNat words := by
  intro st
  have offset : ((st - st % 4096#32).setWidth 64).toNat = (st - st % 4096#32).toNat :=
    BitVec.toNat_setWidth_of_le (by decide)
  rw [main, if_pos opens, if_pos maps, count]
  dsimp only
  rw [test_eq, offset]
  rfl

theorem Mmap.head_silent (st : BitVec 32) (words : Nat) : ¬ Complains (head st words) := by
  rintro ⟨addr, write, verify, printed⟩
  simp [head, Hardware.stores] at printed

theorem Mmap.after_head (hw : Hardware) (cells : Nat → BitVec 32) (st : BitVec 32) (words : Nat) :
    hw.after cells (head st words) =
      hw.after cells (Hardware.stores (st - st % 4096#32).toNat words) := rfl

/-- A run that gets its mapping prints a difference if and only if two words of the range have
    one cell or a cell does not keep the number of its word; it finds nothing else. -/
theorem mmap_complains_iff {hw : Hardware} {cells : Nat → BitVec 32} {world : World}
    {name text : List Byte} (opens : world.opens) (maps : world.maps)
    (answers : hw.Answers cells (Mmap.main world [name, text]).events) :
    let st : BitVec 32 := (strtoul text).setWidth 32
    Complains (Mmap.main world [name, text]).events ↔
      ¬ hw.Sound (st - st % 4096#32).toNat (Mmap.len.toNat / 4) := by
  intro st
  have small : Mmap.len.toNat / 4 ≤ 2 ^ 32 := by decide
  generalize count : Mmap.len.toNat / 4 = words at small ⊢
  rw [Mmap.main_events opens maps name text count] at answers ⊢
  obtain ⟨-, checked⟩ := (hw.answers_append _ _ _).mp answers
  rw [complains_append, or_iff_right (Mmap.head_silent st words),
    Mmap.checks_complain_iff hw _ small checked, Mmap.after_head]
  exact not_congr (hw.sound_iff _ small)

/-! ## Every memory has its run -/

def loadedWord (rand : Nat → Nat) (words n : Nat) : Nat :=
  if n < 10 * words then n % words else rand (n - 10 * words) % words

/-- A run that gets its mapping, on a memory in which the first pass leaves `contents`. -/
def runOn (rand : Nat → Nat) (words : Nat) (contents : Nat → BitVec 32) : World where
  opens := true
  maps := true
  rand := rand
  loaded n k := BitVec.ofNat 8 ((contents (loadedWord rand words n)).toNat / 256 ^ k)
  buf _ := 0

theorem bytesOf_word (value : Nat) :
    bytesOf (fun k => BitVec.ofNat 8 (value / 256 ^ k)) 4 = wordBytes 4 value := by
  apply List.ext_getElem
  · rw [bytesOf_length, wordBytes_length]
  · intro k _ inside
    simp only [bytesOf, List.getElem_map, List.getElem_range, wordBytes_getElem]

theorem runOn_verify {rand : Nat → Nat} {words base n i : Nat} {contents : Nat → BitVec 32}
    (word : loadedWord rand words n = i) {address : Nat} {bytes : List Byte}
    (member : .load address bytes ∈ Mmap.verify (runOn rand words contents) base n i) :
    address = base + 4 * i ∧ bytes = wordBytes 4 (contents i).toNat := by
  have loaded : bytesOf ((runOn rand words contents).loaded n) 4 = wordBytes 4 (contents i).toNat := by
    rw [← word]
    exact bytesOf_word _
  rw [Mmap.verify, loaded] at member
  split at member
  · simpa using member
  · simpa using member

theorem runOn_checks {rand : Nat → Nat} {words base : Nat} {contents : Nat → BitVec 32}
    {address : Nat} {bytes : List Byte}
    (member : .load address bytes ∈ Mmap.checks (runOn rand words contents) base words) :
    ∃ i, address = base + 4 * i ∧ bytes = wordBytes 4 (contents i).toNat := by
  rw [Mmap.checks, List.mem_append, List.mem_flatMap, List.mem_flatMap] at member
  obtain ⟨j, round, pass⟩ | ⟨j, round, pass⟩ := member
  · rw [Mmap.sequential, List.mem_cons, List.mem_flatMap] at pass
    obtain heading | ⟨i, below, verified⟩ := pass
    · cases heading
    · rw [List.mem_range] at round below
      refine ⟨i, runOn_verify ?_ verified⟩
      have early : j * words + i < 10 * words := calc
        j * words + i < j * words + words := Nat.add_lt_add_left below _
        _ = (j + 1) * words := (Nat.succ_mul j words).symm
        _ ≤ 10 * words := Nat.mul_le_mul_right words round
      rw [loadedWord, if_pos early, Nat.add_comm, Nat.add_mul_mod_self_right, Nat.mod_eq_of_lt below]
  · rw [Mmap.random, List.mem_cons, List.mem_flatMap] at pass
    obtain heading | ⟨i, below, verified⟩ := pass
    · cases heading
    · have late : ¬ (10 + j) * words + i < 10 * words := by
        have passes := Nat.mul_le_mul_right words (Nat.le_add_right 10 j)
        omega
      refine ⟨_, runOn_verify ?_ verified⟩
      rw [loadedWord, if_neg late, Nat.add_mul, Nat.add_assoc, Nat.add_sub_cancel_left]
      rfl

theorem Hardware.answers_of_no_load (hw : Hardware) {events : List Event}
    (none : ∀ address bytes, .load address bytes ∉ events) (cells : Nat → BitVec 32) :
    hw.Answers cells events := by
  induction events generalizing cells with
  | nil => trivial
  | cons event events ih =>
    have rest := ih fun address bytes member => none address bytes (List.mem_cons_of_mem _ member)
    cases event with
    | print line => exact rest cells
    | mmap length offset => exact rest cells
    | store address bytes => exact rest _
    | load address bytes => exact absurd List.mem_cons_self (none address bytes)

/-- Whatever the memory, `rand` and the argument are, there is such a run. -/
theorem exists_answers (hw : Hardware) (cells : Nat → BitVec 32) (rand : Nat → Nat)
    (name text : List Byte) :
    ∃ world : World, world.opens ∧ world.maps ∧ world.rand = rand ∧
      hw.Answers cells (Mmap.main world [name, text]).events := by
  obtain ⟨words, count⟩ : ∃ words, Mmap.len.toNat / 4 = words := ⟨_, rfl⟩
  let st : BitVec 32 := (strtoul text).setWidth 32
  let base := (st - st % 4096#32).toNat
  let contents (i : Nat) := hw.after cells (Hardware.stores base words) (hw.row (base / 4 + i))
  refine ⟨runOn rand words contents, rfl, rfl, rfl, ?_⟩
  rw [Mmap.main_events rfl rfl name text count, hw.answers_append]
  constructor
  · refine hw.answers_of_no_load (fun address bytes member => ?_) cells
    simp [Mmap.head, Hardware.stores] at member
  · rw [hw.answers_quiet (Mmap.checks_quiet _ _ _)]
    intro address bytes member
    obtain ⟨i, rfl, rfl⟩ := runOn_checks member
    rw [Hardware.cell, word_address]
    rfl

/-- An address line that is not connected shows. -/
theorem mmap_complains_iff_sample :
    let hw : Hardware := { row := fun word => word % 0x80000, keep := fun _ value => value }
    ∃ world : World, hw.Answers (fun _ => 0) (Mmap.main world [[], [0x30#8]]).events ∧
      Complains (Mmap.main world [[], [0x30#8]]).events := by
  intro hw
  obtain ⟨world, opens, maps, -, answers⟩ := exists_answers hw (fun _ => 0) (fun n => n) [] [0x30#8]
  refine ⟨world, answers, (mmap_complains_iff opens maps answers).mpr ?_⟩
  rintro ⟨own, -⟩
  have same : 0 = 0x80000 := own (show 0 < Mmap.len.toNat / 4 by decide)
    (show 0x80000 < Mmap.len.toNat / 4 by decide) (Nat.add_mod_right _ _).symm
  omega

end TestPrograms.PhysTest
