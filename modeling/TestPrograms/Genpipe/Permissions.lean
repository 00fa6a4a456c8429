import TestPrograms.Genpipe.Writable

/-! # Page permissions after the scan

Around each of its stores `hook_ixgbe` sets `_PAGE_RW` in an entry and clears it again, also
where it was set before.  However often the scan stores through an entry, the bit ends up clear.
-/

namespace TestPrograms.Genpipe

open TestPrograms.Foundations

/-- The image after `hook_ixgbe`; a call that returns -1 has done nothing. -/
def afterHook (getPte : Nat → Option Nat) (symbols : Symbols) (own : Own) (level : BitVec 32) (image : Image) :
    Image :=
  (hookIxgbe getPte symbols own level image).getD image

-- `pte->pte &= ~(_PAGE_RW)`
def readOnlyEntry (entry : BitVec 64) : BitVec 64 := entry &&& ~~~pageRw

theorem readOnlyEntry_set (entry : BitVec 64) : readOnlyEntry (entry ||| pageRw) = readOnlyEntry entry := by
  have none : ~~~pageRw &&& pageRw = 0#64 := by decide
  rw [readOnlyEntry, readOnlyEntry, BitVec.and_comm, BitVec.and_or_distrib_left, none, BitVec.or_zero,
    BitVec.and_comm]

theorem readOnlyEntry_idem (entry : BitVec 64) :
    readOnlyEntry (readOnlyEntry entry) = readOnlyEntry entry := by
  rw [readOnlyEntry, readOnlyEntry, BitVec.and_assoc, BitVec.and_self]

theorem readOnlyEntry_eq_self_iff (entry : BitVec 64) :
    readOnlyEntry entry = entry ↔ entry &&& pageRw = 0#64 := by
  constructor
  · intro same
    rw [← same]
    exact clear_pageRw entry
  · intro clear
    have parts : entry &&& (pageRw ||| ~~~pageRw) = entry := by
      rw [show pageRw ||| ~~~pageRw = BitVec.allOnes 64 by decide, BitVec.and_allOnes]
    rw [BitVec.and_or_distrib_left, clear, BitVec.zero_or] at parts
    exact parts

section

variable {getPte : Nat → Option Nat} {symbols : Symbols} {own : Own} {level : BitVec 32} {pte : Nat}

/-! ## One test, one round, the whole scan -/

theorem hookSite_ptes (original replacement : Addr) (ptr : Nat) (dest : BitVec 32) (image : Image) :
    (hookSite getPte original replacement ptr dest image).ptes pte =
      if afterCall ptr + dest = original.setWidth 32 ∧ getPte ptr = some pte then
        readOnlyEntry (image.ptes pte)
      else image.ptes pte := by
  unfold hookSite
  by_cases leads : afterCall ptr + dest = original.setWidth 32
  · rw [if_pos leads]
    cases found : getPte ptr with
    | none => simp
    | some entry =>
      by_cases here : pte = entry
      · subst here
        simp only [leads, and_self, if_true, Function.update_self]
        exact readOnlyEntry_set _
      · have other : entry ≠ pte := Ne.symm here
        simp only [Function.update_of_ne here, Option.some.injEq, other, and_false, if_false]
  · rw [if_neg leads, if_neg fun both => leads both.1]

theorem foldl_hookSite_ptes (tests : List (Addr × Addr)) (ptr : Nat) (dest : BitVec 32) (image : Image) :
    (tests.foldl (fun img hook => hookSite getPte hook.1 hook.2 ptr dest img) image).ptes pte =
      if (∃ hook ∈ tests, afterCall ptr + dest = hook.1.setWidth 32) ∧ getPte ptr = some pte then
        readOnlyEntry (image.ptes pte)
      else image.ptes pte := by
  induction tests generalizing image with
  | nil => simp
  | cons hook tests ih =>
    rw [List.foldl_cons, ih, hookSite_ptes]
    by_cases found : getPte ptr = some pte
    · by_cases leads : afterCall ptr + dest = hook.1.setWidth 32
      · -- clearing the bit once more changes nothing
        simp [leads, found, readOnlyEntry_idem]
      · simp [leads, found]
    · simp [found]

theorem hookPtr_ptes (ptr : Nat) (image : Image) :
    (hookPtr getPte symbols own level ptr image).ptes pte =
      if Stores getPte symbols own level image.memory ptr ∧ getPte ptr = some pte then
        readOnlyEntry (image.ptes pte)
      else image.ptes pte := by
  simp only [Stores, redirection_isSome_iff]
  by_cases call : image.memory ptr = callq
  · rw [hookPtr_foldl symbols own level ptr call, foldl_hookSite_ptes]
    by_cases found : getPte ptr = some pte
    · simp only [found, Option.isSome_some, call, true_and, and_true]
    · simp only [found, and_false, if_false]
  · rw [hookPtr, if_neg call, if_neg fun both => call both.1.2.1]

theorem hookLoop_ptes (count ptr : Nat) (image : Image) :
    (hookLoop getPte symbols own level count ptr image).ptes pte =
      if ∃ k < count, Stores getPte symbols own level
          (hookLoop getPte symbols own level k ptr image).memory (ptr + k) ∧ getPte (ptr + k) = some pte then
        readOnlyEntry (image.ptes pte)
      else image.ptes pte := by
  induction count generalizing ptr image with
  | zero => simp [hookLoop]
  | succ count ih =>
    -- the first round is that of `k = 0`, the rest those of a scan from the next byte on
    have split : (∃ k < count + 1, Stores getPte symbols own level
          (hookLoop getPte symbols own level k ptr image).memory (ptr + k) ∧ getPte (ptr + k) = some pte) ↔
        (Stores getPte symbols own level image.memory ptr ∧ getPte ptr = some pte) ∨
        ∃ k < count, Stores getPte symbols own level (hookLoop getPte symbols own level k (ptr + 1)
          (hookPtr getPte symbols own level ptr image)).memory (ptr + 1 + k) ∧
          getPte (ptr + 1 + k) = some pte := by
      rw [Nat.exists_lt_succ_left]
      simp only [hookLoop, Nat.add_zero, Nat.add_assoc, Nat.add_comm 1]
    rw [hookLoop, ih, hookPtr_ptes, if_congr split rfl rfl]
    by_cases first : Stores getPte symbols own level image.memory ptr ∧ getPte ptr = some pte
    · simp [first, readOnlyEntry_idem]
    · simp [first]

end

/-- Every entry is after `hook_ixgbe` what it was before if and only if the call returns -1 or the
    scan stores through no entry that was writable. -/
theorem permissions_kept_iff (getPte : Nat → Option Nat) (symbols : Symbols) (own : Own)
    (level : BitVec 32) (image : Image) :
    (∀ pte, (afterHook getPte symbols own level image).ptes pte = image.ptes pte) ↔
      (symbols.Found → ∀ ptr pte, InDriver symbols ptr →
        Stores getPte symbols own level (hookLoop getPte symbols own level (ptr - symbols.driverTop)
          symbols.driverTop image).memory ptr → getPte ptr = some pte →
        image.ptes pte &&& pageRw = 0#64) := by
  rw [afterHook, hookIxgbe_found]
  split
  · rename_i found
    simp only [Option.getD_some, hookLoop_ptes, found, forall_const]
    constructor
    · rintro kept ptr pte ⟨low, high⟩ stores entry
      have same := kept pte
      have place : symbols.driverTop + (ptr - symbols.driverTop) = ptr := by omega
      have through : ∃ k < symbols.driverBottom - symbols.driverTop,
          Stores getPte symbols own level (hookLoop getPte symbols own level k symbols.driverTop image).memory
            (symbols.driverTop + k) ∧ getPte (symbols.driverTop + k) = some pte :=
        ⟨ptr - symbols.driverTop, by omega, by rwa [place], by rwa [place]⟩
      rwa [if_pos through, readOnlyEntry_eq_self_iff] at same
    · intro clear pte
      split
      · rename_i through
        obtain ⟨k, below, stores, entry⟩ := through
        refine (readOnlyEntry_eq_self_iff _).mpr
          (clear (symbols.driverTop + k) pte (inDriver_add below) ?_ entry)
        rwa [Nat.add_sub_cancel_left]
      · rfl
  · rename_i missing
    simp [missing]

/-- A call of `netif_receive_skb` on a page that is writable before, and not after. -/
theorem writable_page_locked :
    let image : Image :=
      { memory := Memory.storeBytes (fun _ => 0) sampleSymbols.driverTop [0xe8#8, 0xfb#8, 0x05#8, 0x50#8, 0xe1#8]
        ptes := fun _ => 0x163#64 }
    (afterHook pageTable sampleSymbols sampleLoaded.own 1#32 image).ptes 0x7fffffffd00000 = 0x161#64 ∧
      ¬ ∀ pte, (afterHook pageTable sampleSymbols sampleLoaded.own 1#32 image).ptes pte = image.ptes pte := by
  intro image
  have locked :
      (afterHook pageTable sampleSymbols sampleLoaded.own 1#32 image).ptes 0x7fffffffd00000 = 0x161#64 := by
    decide
  refine ⟨locked, fun kept => ?_⟩
  rw [kept] at locked
  exact absurd locked (by decide)

end TestPrograms.Genpipe
