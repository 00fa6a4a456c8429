import Mathlib.Data.List.Forall2

/-! # Walks through tables of tables

A radix tree in memory: each level says where the entry for a key stands in a table, which
entries are absent, which end a walk early, and which table an entry leads to.  A walk that
gets to the last table and finds its entry there has descended.  Two walks with the same
slots that agree on the tables the second one goes on to give the same entry of the last
table exactly if both descend or neither does.
-/

namespace TestPrograms.Foundations

/-- The last level of a tree. -/
structure Table (κ ω : Type) where
  slot : Nat → κ → Nat
  absent : ω → Bool

structure Level (κ ω : Type) extends Table κ ω where
  large : ω → Bool
  next : ω → Nat

namespace Level

variable {κ ω : Type} (read : Nat → ω) (key : κ) (last : Table κ ω)

/-- The slot a walk ends at and the number of levels left below it. -/
def walk : List (Level κ ω) → Nat → Option (Nat × Nat)
  | [], table =>
    if last.absent (read (last.slot table key)) then none else some (last.slot table key, 0)
  | level :: below, table =>
    if level.absent (read (level.slot table key)) then none
    else if level.large (read (level.slot table key)) then
      some (level.slot table key, below.length + 1)
    else walk below (level.next (read (level.slot table key)))

def Descends : List (Level κ ω) → Nat → Prop
  | [], table => last.absent (read (last.slot table key)) = false
  | level :: below, table =>
    (level.absent (read (level.slot table key)) = false ∧
      level.large (read (level.slot table key)) = false) ∧
      Descends below (level.next (read (level.slot table key)))

/-- The slot of the last table that entries lead to, whatever they are. -/
def lastSlot : List (Level κ ω) → Nat → Nat
  | [], table => last.slot table key
  | level :: below, table => lastSlot below (level.next (read (level.slot table key)))

/-- The slots above the last table that a walk comes by if nothing ends it early. -/
def way : List (Level κ ω) → Nat → List Nat
  | [], _ => []
  | level :: below, table =>
    level.slot table key :: way below (level.next (read (level.slot table key)))

/-- The entry of the last table, where the walk gets there. -/
def lowest : Option (Nat × Nat) → Option Nat
  | some (slot, 0) => some slot
  | _ => none

@[simp] theorem lowest_none : lowest none = none := rfl

variable {read key last} {levels : List (Level κ ω)} {table : Nat}

theorem lowest_walk_nil (table : Nat) :
    lowest (walk read key last [] table) =
      if last.absent (read (last.slot table key)) then none else some (last.slot table key) := by
  rw [walk]
  split <;> rfl

theorem lowest_walk_cons (level : Level κ ω) (below : List (Level κ ω)) (table : Nat) :
    lowest (walk read key last (level :: below) table) =
      if level.absent (read (level.slot table key)) || level.large (read (level.slot table key)) then none
      else lowest (walk read key last below (level.next (read (level.slot table key)))) := by
  rw [walk]
  cases level.absent (read (level.slot table key)) with
  | true => rfl
  | false => cases level.large (read (level.slot table key)) <;> rfl

theorem lowest_walk (descends : Descends read key last levels table) :
    lowest (walk read key last levels table) = some (lastSlot read key last levels table) := by
  induction levels generalizing table with
  | nil =>
    simp only [Descends] at descends
    simp only [lowest_walk_nil, lastSlot, descends, Bool.false_eq_true, if_false]
  | cons level below ih =>
    obtain ⟨⟨there, small⟩, rest⟩ := descends
    simp only [lowest_walk_cons, lastSlot, there, small, Bool.or_self, Bool.false_eq_true, if_false]
    exact ih rest

theorem lowest_walk_none (stops : ¬ Descends read key last levels table) :
    lowest (walk read key last levels table) = none := by
  induction levels generalizing table with
  | nil =>
    simp only [Descends, Bool.not_eq_false] at stops
    simp only [lowest_walk_nil, stops, if_true]
  | cons level below ih =>
    rw [lowest_walk_cons]
    split
    · rfl
    · rename_i onward
      exact ih fun rest => stops ⟨Bool.or_eq_false_iff.mp (Bool.eq_false_iff.mpr onward), rest⟩

/-- A walk that has found an entry finds it in any memory that is the same on the way and has an
    entry there. -/
theorem lowest_walk_congr {other : Nat → ω} {slot : Nat}
    (found : lowest (walk read key last levels table) = some slot)
    (same : ∀ onWay ∈ way read key levels table, other onWay = read onWay)
    (there : last.absent (other slot) = false) :
    lowest (walk other key last levels table) = some slot := by
  induction levels generalizing table with
  | nil =>
    rw [lowest_walk_nil] at found ⊢
    split at found
    · cases found
    · cases found
      rw [there]
      rfl
  | cons level below ih =>
    rw [way, List.forall_mem_cons] at same
    rw [lowest_walk_cons] at found ⊢
    rw [same.1]
    split at found
    · cases found
    · rename_i onward
      rw [if_neg onward]
      exact ih found same.2

/-- The levels have the same slots, and lead to the same table where the second one goes on. -/
structure Agrees (level other : Level κ ω) : Prop where
  slot : level.slot = other.slot
  next : ∀ word, other.absent word = false → other.large word = false →
    level.next word = other.next word

theorem lastSlot_eq {other : Table κ ω} {others : List (Level κ ω)}
    (agree : List.Forall₂ Agrees levels others) (slots : last.slot = other.slot)
    (descends : Descends read key other others table) :
    lastSlot read key last levels table = lastSlot read key other others table := by
  induction agree generalizing table with
  | nil => simp only [lastSlot, slots]
  | cons head _ ih =>
    obtain ⟨⟨there, small⟩, rest⟩ := descends
    simp only [lastSlot, head.slot, head.next _ there small]
    exact ih rest

/-- The tests of the second walk may as well be made of the words the first one comes to. -/
theorem descends_next {other : Table κ ω} {others : List (Level κ ω)}
    (agree : List.Forall₂ Agrees levels others) :
    Descends read key other others table ↔ Descends read key other
      (List.zipWith (fun level other => { other with next := level.next }) levels others) table := by
  induction agree generalizing table with
  | nil => rfl
  | cons head _ ih =>
    simp only [List.zipWith_cons_cons, Descends]
    refine and_congr_right fun passes => ?_
    rw [head.next _ passes.1 passes.2]
    exact ih

theorem lowest_walk_eq_iff {other : Table κ ω} {others : List (Level κ ω)}
    (agree : List.Forall₂ Agrees levels others) (slots : last.slot = other.slot) :
    lowest (walk read key last levels table) = lowest (walk read key other others table) ↔
      (Descends read key last levels table ↔ Descends read key other others table) := by
  by_cases descends : Descends read key other others table
  · rw [lowest_walk descends]
    by_cases follows : Descends read key last levels table
    · rw [lowest_walk follows, lastSlot_eq agree slots descends]
      simp only [descends, follows]
    · rw [lowest_walk_none follows]
      simp only [descends, follows, reduceCtorEq, false_iff, not_true_eq_false]
  · rw [lowest_walk_none descends]
    by_cases follows : Descends read key last levels table
    · rw [lowest_walk follows]
      simp only [descends, follows, reduceCtorEq, iff_false, not_true_eq_false]
    · rw [lowest_walk_none follows]
      simp only [descends, follows]

/-- The same where the second walk is made only in some cases. -/
theorem lowest_walk_eq_ite_iff {other : Table κ ω} {others : List (Level κ ω)}
    (agree : List.Forall₂ Agrees levels others) (slots : last.slot = other.slot) (made : Prop)
    [Decidable made] :
    lowest (walk read key last levels table) =
        (if made then lowest (walk read key other others table) else none) ↔
      (Descends read key last levels table ↔ made ∧ Descends read key other others table) := by
  by_cases yes : made
  · simp only [yes, if_true, true_and]
    exact lowest_walk_eq_iff agree slots
  · simp only [yes, if_false, false_and, iff_false]
    by_cases descends : Descends read key last levels table
    · simp only [lowest_walk descends, descends, reduceCtorEq, not_true_eq_false]
    · simp only [lowest_walk_none descends, descends, not_false_eq_true]

end Level

end TestPrograms.Foundations
