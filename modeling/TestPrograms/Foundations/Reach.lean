import Mathlib.Order.Interval.Set.LinearOrder
import Mathlib.Data.Set.Lattice

/-! # Addresses that a run of accesses reaches

An access takes the bytes from its address on.  What is said here of lists of accesses is
enough for loops over a buffer: one that goes through it word by word reaches all of it, and
one that picks words of it nothing else.
-/

namespace TestPrograms.Foundations

/-- The addresses of some accesses, each given by its first address and its size. -/
def reached (accesses : List (Nat × Nat)) : Set Nat :=
  {a | ∃ access ∈ accesses, a ∈ Set.Ico access.1 (access.1 + access.2)}

@[simp] theorem reached_nil : reached [] = ∅ := by simp [reached]

@[simp] theorem reached_cons (access : Nat × Nat) (accesses : List (Nat × Nat)) :
    reached (access :: accesses) = Set.Ico access.1 (access.1 + access.2) ∪ reached accesses := by
  ext a
  simp [reached]

@[simp] theorem reached_append (first second : List (Nat × Nat)) :
    reached (first ++ second) = reached first ∪ reached second := by
  ext a
  simp [reached, or_and_right, exists_or]

theorem reached_flatMap_subset {α : Type} {items : List α} {f : α → List (Nat × Nat)} {S : Set Nat}
    (each : ∀ item ∈ items, reached (f item) ⊆ S) : reached (items.flatMap f) ⊆ S := by
  rintro a ⟨access, member, inside⟩
  obtain ⟨item, listed, within⟩ := List.mem_flatMap.mp member
  exact each item listed ⟨access, within, inside⟩

/-- Items with one access in common reach what that access does. -/
theorem reached_filterMap_same {α : Type} {items : List α} {f : α → Option (Nat × Nat)}
    (access : Nat × Nat) {first : α} (listed : first ∈ items)
    (same : ∀ item ∈ items, f item = some access) :
    reached (items.filterMap f) = Set.Ico access.1 (access.1 + access.2) := by
  ext a
  constructor
  · rintro ⟨other, member, inside⟩
    obtain ⟨item, found, gives⟩ := List.mem_filterMap.mp member
    rw [same item found, Option.some.injEq] at gives
    rwa [gives]
  · intro inside
    exact ⟨access, List.mem_filterMap.mpr ⟨first, listed, same first listed⟩, inside⟩

theorem word_subset {base width words i : Nat} (within : i < words) :
    Set.Ico (base + width * i) (base + width * i + width) ⊆ Set.Ico base (base + width * words) := by
  have last := Nat.mul_le_mul_left width (Nat.succ_le_of_lt within)
  rw [Nat.mul_succ] at last
  exact Set.Ico_subset_Ico (Nat.le_add_right _ _) (by omega)

/-- Words one after the other make up the whole buffer. -/
theorem reached_words (base width words : Nat) :
    reached ((List.range words).map fun i => (base + width * i, width)) =
      Set.Ico base (base + width * words) := by
  induction words with
  | zero => simp
  | succ words ih =>
    rw [List.range_succ, List.map_append, reached_append, ih, List.map_singleton, reached_cons,
      reached_nil, Set.union_empty, Nat.mul_succ, ← Nat.add_assoc]
    exact Set.Ico_union_Ico_eq_Ico (Nat.le_add_right _ _) (Nat.le_add_right _ _)

/-- A buffer lies in one of the same size where it begins at the same address. -/
theorem buffer_subset_iff {size : Nat} (some : 0 < size) (a b : Nat) :
    Set.Ico a (a + size) ⊆ Set.Ico b (b + size) ↔ a = b := by
  rw [Set.Ico_subset_Ico_iff (by omega)]
  omega

/-- Cutting a number down and then to a multiple keeps only multiples that are not cut. -/
theorem multiple_eq_iff {n cut page : Nat} (less : cut ≤ n) :
    cut - cut % page = n ↔ cut = n ∧ page ∣ n := by
  constructor
  · intro same
    have whole : cut = n := by omega
    exact ⟨whole, Nat.dvd_of_mod_eq_zero (by subst whole; have := Nat.mod_le cut page; omega)⟩
  · rintro ⟨rfl, multiple⟩
    rw [Nat.mod_eq_zero_of_dvd multiple, Nat.sub_zero]

end TestPrograms.Foundations
