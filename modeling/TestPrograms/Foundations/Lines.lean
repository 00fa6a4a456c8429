import Mathlib.Data.List.Basic
import Mathlib.Tactic.Linarith

/-! # Lines of a stream

`Lines terminator stream lines rest` says that `stream` is the given lines, each ended
by the terminator, and then `rest`, which has no terminator.  A stream has no second such
reading, and it can be read piecewise by carrying the rest over.
-/

namespace TestPrograms.Foundations

variable {α : Type}

def unlines (terminator : α) (lines : List (List α)) : List α :=
  lines.flatMap fun line => line ++ [terminator]

structure Lines (terminator : α) (stream : List α) (lines : List (List α)) (rest : List α) :
    Prop where
  spells : stream = unlines terminator lines ++ rest
  unbroken : ∀ line ∈ lines, terminator ∉ line
  unfinished : terminator ∉ rest

theorem unlines_cons (terminator : α) (line : List α) (lines : List (List α)) :
    unlines terminator (line :: lines) = line ++ terminator :: unlines terminator lines := by
  simp [unlines]

theorem unlines_append (terminator : α) (first second : List (List α)) :
    unlines terminator (first ++ second) =
      unlines terminator first ++ unlines terminator second := by
  simp [unlines]

namespace Lines

variable {terminator : α} {stream more rest rest' : List α} {lines lines' : List (List α)}

theorem nil_of_not_mem (unfinished : terminator ∉ stream) : Lines terminator stream [] stream :=
  ⟨by simp [unlines], by simp, unfinished⟩

theorem cons {line : List α} (unbroken : terminator ∉ line)
    (tail : Lines terminator stream lines rest) :
    Lines terminator (line ++ terminator :: stream) (line :: lines) rest := by
  refine ⟨?_, ?_, tail.unfinished⟩
  · rw [unlines_cons, tail.spells]
    simp
  · intro candidate member
    cases member with
    | head => exact unbroken
    | tail _ member => exact tail.unbroken candidate member

theorem exists_lines [DecidableEq α] (terminator : α) (stream : List α) :
    ∃ lines rest, Lines terminator stream lines rest := by
  induction stream with
  | nil => exact ⟨[], [], nil_of_not_mem List.not_mem_nil⟩
  | cons head stream ih =>
    obtain ⟨lines, rest, read⟩ := ih
    by_cases ends : head = terminator
    · subst ends
      exact ⟨[] :: lines, rest, read.cons List.not_mem_nil⟩
    · -- the head belongs to the first line, or to the rest if there is none
      cases lines with
      | nil =>
        have whole : stream = rest := read.spells
        subst whole
        refine ⟨[], head :: stream, nil_of_not_mem ?_⟩
        simpa [Ne.symm ends] using read.unfinished
      | cons line lines =>
        refine ⟨(head :: line) :: lines, rest, ⟨?_, ?_, read.unfinished⟩⟩
        · rw [read.spells, unlines_cons, unlines_cons]
          rfl
        · intro candidate member
          cases member with
          | head => simpa [Ne.symm ends] using read.unbroken line List.mem_cons_self
          | tail _ member => exact read.unbroken candidate (List.mem_cons_of_mem _ member)

theorem tail {line : List α} (read : Lines terminator stream (line :: lines) rest) :
    stream = line ++ terminator :: (unlines terminator lines ++ rest) ∧ terminator ∉ line ∧
      Lines terminator (unlines terminator lines ++ rest) lines rest := by
  refine ⟨?_, read.unbroken line List.mem_cons_self, rfl,
    fun l member => read.unbroken l (List.mem_cons_of_mem _ member), read.unfinished⟩
  rw [read.spells, unlines_cons, List.append_assoc, List.cons_append]

theorem append (first : Lines terminator stream lines rest)
    (second : Lines terminator (rest ++ more) lines' rest') :
    Lines terminator (stream ++ more) (lines ++ lines') rest' := by
  refine ⟨?_, ?_, second.unfinished⟩
  · rw [first.spells, unlines_append, List.append_assoc, List.append_assoc, second.spells]
  · intro line member
    cases List.mem_append.mp member with
    | inl member => exact first.unbroken line member
    | inr member => exact second.unbroken line member

theorem length_eq (read : Lines terminator stream lines rest) :
    stream.length = (unlines terminator lines).length + rest.length := by
  rw [read.spells, List.length_append]

theorem front_unique {left right more more' : List α} (unbroken : terminator ∉ left)
    (unbroken' : terminator ∉ right)
    (same : left ++ terminator :: more = right ++ terminator :: more') :
    left = right ∧ more = more' := by
  induction left generalizing right with
  | nil =>
    cases right with
    | nil => simpa using same
    | cons c right =>
      simp only [List.nil_append, List.cons_append, List.cons.injEq] at same
      exact absurd (same.1 ▸ List.mem_cons_self) unbroken'
  | cons b left ih =>
    cases right with
    | nil =>
      simp only [List.nil_append, List.cons_append, List.cons.injEq] at same
      exact absurd (same.1 ▸ List.mem_cons_self) unbroken
    | cons c right =>
      simp only [List.cons_append, List.cons.injEq] at same
      obtain ⟨fronts, rests⟩ := ih (fun member => unbroken (List.mem_cons_of_mem _ member))
        (fun member => unbroken' (List.mem_cons_of_mem _ member)) same.2
      exact ⟨by rw [same.1, fronts], rests⟩

theorem back_unique {left right before before' : List α} (unbroken : terminator ∉ left)
    (unbroken' : terminator ∉ right)
    (same : before ++ terminator :: left = before' ++ terminator :: right) : left = right := by
  have mirrored := congrArg List.reverse same
  simp only [List.reverse_append, List.reverse_cons, List.append_assoc, List.singleton_append]
    at mirrored
  have fronts := front_unique (by simpa using unbroken) (by simpa using unbroken') mirrored
  exact List.reverse_injective fronts.1

/-- A stream has one reading. -/
theorem unique (read : Lines terminator stream lines rest)
    (read' : Lines terminator stream lines' rest') : lines = lines' ∧ rest = rest' := by
  -- both readings end their first line at the first terminator, if there is one
  induction lines generalizing stream lines' with
  | nil =>
    have same := read.spells.symm.trans read'.spells
    cases lines' with
    | nil => exact ⟨rfl, by simpa [unlines] using same⟩
    | cons line' lines' =>
      refine absurd ?_ read.unfinished
      rw [unlines_cons] at same
      simp only [unlines, List.flatMap_nil, List.nil_append] at same
      rw [same]
      simp
  | cons line lines ih =>
    have same := read.spells.symm.trans read'.spells
    cases lines' with
    | nil =>
      refine absurd ?_ read'.unfinished
      rw [unlines_cons] at same
      simp only [unlines, List.flatMap_nil, List.nil_append] at same
      rw [← same]
      simp
    | cons line' lines' =>
      rw [unlines_cons, unlines_cons, List.append_assoc, List.append_assoc, List.cons_append,
        List.cons_append] at same
      obtain ⟨heads, tails⟩ := front_unique (read.unbroken line List.mem_cons_self)
        (read'.unbroken line' List.mem_cons_self) same
      obtain ⟨lines, rests⟩ := ih
        ⟨rfl, fun l member => read.unbroken l (List.mem_cons_of_mem _ member), read.unfinished⟩
        ⟨tails, fun l member => read'.unbroken l (List.mem_cons_of_mem _ member), read'.unfinished⟩
      exact ⟨by rw [heads, lines], rests⟩

end Lines

end TestPrograms.Foundations
