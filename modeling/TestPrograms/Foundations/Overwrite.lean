import Mathlib.Data.List.Induction

/-! # Overlapping writes

A write gives one value to a whole set of keys.  After a list of writes each key has the
value of the last write that covers it; when the list is sorted by some relation, that is
the greatest of the writes covering it.
-/

namespace TestPrograms.Foundations

variable {κ β ω : Type} (covers : ω → κ → Prop) [∀ w k, Decidable (covers w k)] (value : ω → β)

/-- Give every key that `w` covers the value of `w`. -/
def overwrite (table : κ → β) (w : ω) : κ → β := fun k => if covers w k then value w else table k

theorem foldl_overwrite_concat (writes : List ω) (w : ω) (table : κ → β) (k : κ) :
    (writes ++ [w]).foldl (overwrite covers value) table k =
      if covers w k then value w else writes.foldl (overwrite covers value) table k := by
  rw [List.foldl_append, List.foldl_cons, List.foldl_nil, overwrite]

/-- After sorted writes a key has the value of the greatest write that covers it, or is as
    it was when there is none. -/
theorem foldl_overwrite_sorted {r : ω → ω → Prop} {writes : List ω} (sorted : writes.Pairwise r)
    (table : κ → β) (k : κ) :
    (∃ w ∈ writes, covers w k ∧ (∀ other ∈ writes, covers other k → other = w ∨ r other w) ∧
      writes.foldl (overwrite covers value) table k = value w) ∨
    ((∀ w ∈ writes, ¬ covers w k) ∧ writes.foldl (overwrite covers value) table k = table k) := by
  induction writes using List.reverseRecOn with
  | nil => exact .inr ⟨by simp, rfl⟩
  | append_singleton writes w ih =>
    obtain ⟨sorted, -, before⟩ := List.pairwise_append.mp sorted
    rw [foldl_overwrite_concat]
    by_cases covered : covers w k
    · refine .inl ⟨w, by simp, covered, fun other member _ => ?_, if_pos covered⟩
      cases List.mem_append.mp member with
      | inl earlier => exact .inr (before other earlier w List.mem_cons_self)
      | inr last => exact .inl (List.mem_singleton.mp last)
    · rw [if_neg covered]
      rcases ih sorted with ⟨best, member, coversKey, greatest, stored⟩ | ⟨none, stored⟩
      · refine .inl ⟨best, List.mem_append_left _ member, coversKey, fun other among key => ?_, stored⟩
        cases List.mem_append.mp among with
        | inl earlier => exact greatest other earlier key
        | inr last => exact absurd (List.mem_singleton.mp last ▸ key) covered
      · refine .inr ⟨fun other among => ?_, stored⟩
        cases List.mem_append.mp among with
        | inl earlier => exact none other earlier
        | inr last => exact List.mem_singleton.mp last ▸ covered

end TestPrograms.Foundations
