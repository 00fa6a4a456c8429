import TestPrograms.Foundations.Reach
import TestPrograms.PhysTest.Program

/-! # Which bytes are tested

Both tests move bytes from the start of their mapping on, so what they reach is the page the
argument lies in and on from there.  It is the range asked for where the argument is the start
of a page and is kept whole: `mmap` has 32 bits for it and `strtoll` of `membench` gives 63.
-/

namespace TestPrograms.PhysTest

open TestPrograms.Foundations TestPrograms.Foundations.Memory
open TestPrograms.Foundations.Strtol (strtoul strtoll Spells exists_spells)

def Event.access : Event → Option (Nat × Nat)
  | .load address bytes | .store address bytes => some (address, bytes.length)
  | .print _ | .mmap _ _ => none

def touched (events : List Event) : Set Nat := reached (events.filterMap Event.access)

@[simp] theorem touched_append (first second : List Event) :
    touched (first ++ second) = touched first ∪ touched second := by
  rw [touched, List.filterMap_append, reached_append]
  rfl

@[simp] theorem touched_print (line : Line) (events : List Event) :
    touched (.print line :: events) = touched events := by
  rw [touched, List.filterMap_cons_none rfl, touched]

@[simp] theorem touched_mmap (length offset : BitVec 64) (events : List Event) :
    touched (.mmap length offset :: events) = touched events := by
  rw [touched, List.filterMap_cons_none rfl, touched]

@[simp] theorem touched_load (address : Nat) (bytes : List Byte) (events : List Event) :
    touched (.load address bytes :: events) =
      Set.Ico address (address + bytes.length) ∪ touched events := reached_cons _ _

@[simp] theorem touched_nil : touched [] = ∅ := reached_nil

theorem touched_flatMap_subset {α : Type} {items : List α} {f : α → List Event} {S : Set Nat}
    (each : ∀ item ∈ items, touched (f item) ⊆ S) : touched (items.flatMap f) ⊆ S := by
  rw [touched, List.filterMap_flatMap]
  exact reached_flatMap_subset each

@[simp] theorem bytesOf_length (contents : Nat → Byte) (count : Nat) :
    (bytesOf contents count).length = count := by rw [bytesOf, List.length_map, List.length_range]

theorem toNat_sub_umod {width : Nat} (st page : BitVec width) :
    (st - st % page).toNat = st.toNat - st.toNat % page.toNat := by
  rw [BitVec.toNat_sub_of_le, BitVec.toNat_umod]
  rw [BitVec.le_def, BitVec.toNat_umod]
  exact Nat.mod_le _ _

/-- A length with the offset in the page added does not wrap. -/
theorem toNat_le_add_umod {width : Nat} {len page : BitVec width} (st : BitVec width)
    (positive : 0 < page.toNat) (room : len.toNat + page.toNat ≤ 2 ^ width) :
    len.toNat ≤ (len + st % page).toNat := by
  have below : (st % page).toNat < page.toNat := by
    rw [BitVec.toNat_umod]
    exact Nat.mod_lt _ positive
  rw [BitVec.toNat_add_of_lt (by omega)]
  exact Nat.le_add_right _ _

/-! ## `mmap` -/

namespace Mmap

variable (world : World) (base words : Nat)

theorem write_touched : touched (write base words) = Set.Ico base (base + 4 * words) := by
  rw [write, touched_print, touched, List.filterMap_map, ← reached_words, ← List.filterMap_eq_map]
  rfl

theorem verify_touched (n i : Nat) :
    touched (verify world base n i) = Set.Ico (base + 4 * i) (base + 4 * i + 4) := by
  rw [verify, touched_load, bytesOf_length]
  split <;> simp

theorem sequential_subset (j : Nat) :
    touched (sequential world base words j) ⊆ Set.Ico base (base + 4 * words) := by
  refine touched_flatMap_subset fun i member => ?_
  rw [verify_touched]
  exact word_subset (List.mem_range.mp member)

theorem random_subset (j : Nat) :
    touched (random world base words j) ⊆ Set.Ico base (base + 4 * words) := by
  refine touched_flatMap_subset fun i member => ?_
  have some : 0 < words := Nat.zero_lt_of_lt (List.mem_range.mp member)
  rw [verify_touched]
  exact word_subset (Nat.mod_lt _ some)

/-- The first pass reaches the whole buffer and the others stay in it. -/
theorem test_touched : touched (test world base words) = Set.Ico base (base + 4 * words) := by
  rw [test, touched_append, touched_append, write_touched, Set.union_assoc]
  refine Set.union_eq_left.mpr (Set.union_subset ?_ ?_)
  · exact touched_flatMap_subset fun j _ => sequential_subset world base words j
  · exact touched_flatMap_subset fun j _ => random_subset world base words j

theorem main_touched_page (name text : List Byte) :
    let st : BitVec 32 := (strtoul text).setWidth 32
    touched (main world [name, text]).events =
      if world.opens ∧ world.maps then
        Set.Ico (st - st % 4096#32).toNat ((st - st % 4096#32).toNat + 0x400000)
      else ∅ := by
  intro st
  have offset : ((st - st % 4096#32).setWidth 64).toNat = (st - st % 4096#32).toNat :=
    BitVec.toNat_setWidth_of_le (by decide)
  have size : 4 * (len.toNat / 4) = 0x400000 := rfl
  rw [main]
  by_cases opens : world.opens
  · by_cases maps : world.maps
    · simp only [opens, maps, and_self, if_true, List.cons_append, List.nil_append, touched_print,
        touched_mmap, test_touched, offset, size, st]
    · simp only [opens, maps, and_false, if_true, if_false, Bool.false_eq_true, List.cons_append,
        List.nil_append, touched_print, touched_mmap, touched_nil]
  · simp only [opens, false_and, if_false, Bool.false_eq_true, touched_print, touched_nil]

/-- Nothing is moved past the end of the mapping, which is where a run would be stopped. -/
theorem main_within_mapping (name text : List Byte) :
    let st : BitVec 32 := (strtoul text).setWidth 32
    touched (main world [name, text]).events ⊆
      Set.Ico (st - st % 4096#32).toNat ((st - st % 4096#32).toNat + (len + st % 4096#32).toNat) := by
  intro st
  have room : len.toNat ≤ (len + st % 4096#32).toNat := toNat_le_add_umod st (by decide) (by decide)
  rw [main_touched_page]
  split
  · exact Set.Ico_subset_Ico_right (Nat.add_le_add_left room _)
  · exact Set.empty_subset _

/-- For a text that spells its argument, the page of the argument's lower half. -/
theorem main_touched {text : List Byte} {st : Nat} (spells : Spells text st) (word : st < 2 ^ 64)
    (name : List Byte) :
    touched (main world [name, text]).events =
      if world.opens ∧ world.maps then
        Set.Ico (st % 2 ^ 32 - st % 2 ^ 32 % 4096) (st % 2 ^ 32 - st % 2 ^ 32 % 4096 + 0x400000)
      else ∅ := by
  have lower : ((strtoul text).setWidth 32).toNat = st % 2 ^ 32 := by
    rw [BitVec.toNat_setWidth, spells.strtoul word]
  have page := toNat_sub_umod ((strtoul text).setWidth 32) 4096#32
  rw [lower] at page
  rw [main_touched_page, page]
  rfl

end Mmap

/-! ## `membench` -/

namespace Membench

variable (world : World) (base : Nat) (mode : List Byte)

theorem copies_touched (copied : mode = w ∨ mode = r) :
    touched (copies world base mode) = Set.Ico base (base + 0x8000) := by
  have size (contents : Nat → Byte) : (bytesOf contents len.toNat).length = 0x8000 := bytesOf_length _ _
  rw [copies, touched_append]
  obtain rfl | rfl := copied
  · rw [if_pos rfl, if_neg (by decide), touched_nil, Set.union_empty]
    refine reached_filterMap_same (base, 0x8000) (List.mem_replicate.mpr ⟨by decide, rfl⟩)
      fun event member => ?_
    rw [List.eq_of_mem_replicate member, Event.access, size]
  · rw [if_neg (by decide), if_pos rfl, touched_nil, Set.empty_union]
    refine reached_filterMap_same (base, 0x8000)
      (List.mem_map_of_mem (List.mem_range.mpr (by decide : 0 < 1000))) fun event member => ?_
    obtain ⟨i, -, rfl⟩ := List.mem_map.mp member
    rw [Event.access, size]

theorem copies_touched_none (copied : ¬ (mode = w ∨ mode = r)) :
    touched (copies world base mode) = ∅ := by
  rw [not_or] at copied
  rw [copies, if_neg copied.1, if_neg copied.2]
  exact touched_nil

theorem main_touched_page (name text : List Byte) :
    let st := strtoll text
    touched (main world [name, text, mode]).events =
      if world.opens ∧ world.maps ∧ (mode = w ∨ mode = r) then
        Set.Ico (st - st % 4096#64).toNat ((st - st % 4096#64).toNat + 0x8000)
      else ∅ := by
  intro st
  rw [main]
  by_cases opens : world.opens
  · by_cases maps : world.maps
    · simp only [opens, maps, true_and, if_true, List.cons_append, List.nil_append, touched_print,
        touched_mmap]
      by_cases copied : mode = w ∨ mode = r
      · rw [if_pos copied, copies_touched world _ mode copied]
      · rw [if_neg copied, copies_touched_none world _ mode copied]
    · simp only [opens, maps, false_and, and_false, if_true, if_false, Bool.false_eq_true,
        List.cons_append, List.nil_append, touched_print, touched_mmap, touched_nil]
  · simp only [opens, false_and, if_false, Bool.false_eq_true, List.cons_append, List.nil_append,
      touched_print, touched_nil]

theorem main_within_mapping (name text : List Byte) :
    let st := strtoll text
    touched (main world [name, text, mode]).events ⊆
      Set.Ico (st - st % 4096#64).toNat ((st - st % 4096#64).toNat + (len + st % 4096#64).toNat) := by
  intro st
  have room : len.toNat ≤ (len + st % 4096#64).toNat := toNat_le_add_umod st (by decide) (by decide)
  rw [main_touched_page]
  split
  · exact Set.Ico_subset_Ico_right (Nat.add_le_add_left room _)
  · exact Set.empty_subset _

/-- For a text that spells its argument, the page of the argument or of the largest `long long`. -/
theorem main_touched {text : List Byte} {st : Nat} (spells : Spells text st) (name : List Byte) :
    touched (main world [name, text, mode]).events =
      if world.opens ∧ world.maps ∧ (mode = w ∨ mode = r) then
        Set.Ico (min st (2 ^ 63 - 1) - min st (2 ^ 63 - 1) % 4096)
          (min st (2 ^ 63 - 1) - min st (2 ^ 63 - 1) % 4096 + 0x8000)
      else ∅ := by
  have page := toNat_sub_umod (strtoll text) 4096#64
  rw [spells.strtoll] at page
  rw [main_touched_page, page]
  rfl

end Membench

/-! ## The range asked for -/

theorem granted_subset_iff {granted : Prop} [Decidable granted] {size : Nat} (some : 0 < size)
    (a b : Nat) :
    (if granted then Set.Ico a (a + size) else ∅) ⊆ Set.Ico b (b + size) ↔ (granted → a = b) := by
  split
  · rename_i maps
    rw [buffer_subset_iff some]
    exact ⟨fun same _ => same, fun same => same maps⟩
  · rename_i refused
    exact iff_of_true (Set.empty_subset _) fun maps => absurd maps refused

/-- Every `st` has a text.  Given one inside a page, neither test that gets its mapping keeps to
    the range that begins there. -/
theorem inside_page_missed {st : Nat} (word : st < 2 ^ 64) (inside : ¬ 4096 ∣ st) {world : World}
    (opens : world.opens) (maps : world.maps) {mode : List Byte}
    (copied : mode = Membench.w ∨ mode = Membench.r) (name : List Byte) :
    ∃ text, Spells text st ∧
      ¬ touched (Mmap.main world [name, text]).events ⊆ Set.Ico st (st + 0x400000) ∧
      ¬ touched (Membench.main world [name, text, mode]).events ⊆ Set.Ico st (st + 0x8000) := by
  obtain ⟨text, spells⟩ := exists_spells st
  refine ⟨text, spells, ?_, ?_⟩
  · rw [Mmap.main_touched world spells word, granted_subset_iff (by decide),
      multiple_eq_iff (Nat.mod_le _ _)]
    exact fun kept => inside (kept ⟨opens, maps⟩).2
  · rw [Membench.main_touched world mode spells, granted_subset_iff (by decide),
      multiple_eq_iff (min_le_left _ _)]
    exact fun kept => inside (kept ⟨opens, maps, copied⟩).2

/-- Each test stays in the range that begins at its argument just when it reaches nothing, or
    the argument is the start of a page and short enough to be kept whole. -/
theorem range_iff {text : List Byte} {st : Nat} (spells : Spells text st) (word : st < 2 ^ 64)
    (world : World) (name mode : List Byte) :
    (touched (Mmap.main world [name, text]).events ⊆ Set.Ico st (st + 0x400000) ↔
        (world.opens ∧ world.maps → st < 2 ^ 32 ∧ 4096 ∣ st)) ∧
      (touched (Membench.main world [name, text, mode]).events ⊆ Set.Ico st (st + 0x8000) ↔
        (world.opens ∧ world.maps ∧ (mode = Membench.w ∨ mode = Membench.r) →
          st < 2 ^ 63 ∧ 4096 ∣ st)) := by
  constructor
  · have short : st % 2 ^ 32 = st ↔ st < 2 ^ 32 := by omega
    rw [Mmap.main_touched world spells word, granted_subset_iff (by decide),
      multiple_eq_iff (Nat.mod_le _ _), short]
  · have short : min st (2 ^ 63 - 1) = st ↔ st < 2 ^ 63 := by omega
    rw [Membench.main_touched world mode spells, granted_subset_iff (by decide),
      multiple_eq_iff (min_le_left _ _), short]

/-- Every call succeeds. -/
def granted : World where
  opens := true
  maps := true
  rand := fun _ => 0
  loaded := fun _ _ => 0
  buf := fun _ => 0

theorem spells_start : Spells [0x65#8, 0x39#8, 0x30#8, 0x30#8, 0x30#8, 0x30#8, 0x30#8, 0x30#8] 0xe9000000 :=
  .of_all (by decide) rfl

/-- The address that `membench` has as its default. -/
theorem range_iff_default :
    let text : List Byte := [0x65#8, 0x39#8, 0x30#8, 0x30#8, 0x30#8, 0x30#8, 0x30#8, 0x30#8]
    touched (Mmap.main granted [[], text]).events ⊆ Set.Ico 0xe9000000 (0xe9000000 + 0x400000) ∧
      touched (Membench.main granted [[], text, Membench.r]).events ⊆
        Set.Ico 0xe9000000 (0xe9000000 + 0x8000) := by
  obtain ⟨mmap, membench⟩ := range_iff spells_start (by decide) granted [] Membench.r
  exact ⟨mmap.mpr fun _ => by decide, membench.mpr fun _ => by decide⟩

theorem spells_inside : Spells [0x31#8, 0x32#8, 0x33#8, 0x34#8] 0x1234 := .of_all (by decide) rfl

theorem spells_wide :
    Spells [0x31#8, 0x30#8, 0x30#8, 0x30#8, 0x30#8, 0x31#8, 0x30#8, 0x30#8, 0x30#8] 0x100001000 :=
  .of_all (by decide) rfl

/-- An argument inside its page, at which both start too early, and one that begins a page but
    has more than 32 bits. -/
theorem range_before_argument :
    ¬ touched (Mmap.main granted [[], [0x31#8, 0x32#8, 0x33#8, 0x34#8]]).events ⊆
        Set.Ico 0x1234 (0x1234 + 0x400000) ∧
      ¬ touched (Membench.main granted [[], [0x31#8, 0x32#8, 0x33#8, 0x34#8], Membench.w]).events ⊆
          Set.Ico 0x1234 (0x1234 + 0x8000) ∧
      ¬ touched (Mmap.main granted
            [[], [0x31#8, 0x30#8, 0x30#8, 0x30#8, 0x30#8, 0x31#8, 0x30#8, 0x30#8, 0x30#8]]).events ⊆
          Set.Ico 0x100001000 (0x100001000 + 0x400000) := by
  refine ⟨?_, ?_, ?_⟩
  · rw [Mmap.main_touched granted spells_inside (by decide), granted_subset_iff (by decide)]
    decide
  · rw [Membench.main_touched granted Membench.w spells_inside, granted_subset_iff (by decide)]
    decide
  · rw [Mmap.main_touched granted spells_wide (by decide), granted_subset_iff (by decide)]
    decide

end TestPrograms.PhysTest
