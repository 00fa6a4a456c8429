import TestPrograms.Devmem.Kmem
import TestPrograms.Genpipe.GetPte

/-! # Virtual to physical

`any_v2p` of `virt2phys.h` goes the way of `get_pte` in `bypass_ipstack`, and makes an address of
the last entry.  Where an entry ends the walk it returns a variable that has not been stored to.
-/

namespace TestPrograms.PciEnabler

open TestPrograms.Foundations
open TestPrograms.Devmem (present pse frame offsetIn Canonical pageMask toNat_and_pageMask
  toNat_and_lowMask toNat_frame)
open TestPrograms.Genpipe (Entry Headers OnWay entryLevel mmuLast mmuLevels mmuPte tableOf
  descends_mmu_iff vmallocTables x86 x86_sound)

/-- `PHYSICAL_PAGE_MASK`; `__PHYSICAL_MASK_SHIFT` is 46 or 52, as the kernel has it. -/
def physicalPageMask (maskShift : Nat) : Entry := pageMask &&& BitVec.ofNat 64 (2 ^ maskShift - 1)

section

-- What `paddr` holds before it is stored to.
variable (h : Headers) (maskShift : Nat) (paddr : Entry)

variable (mm : Nat) (read : Nat → Option Entry) (vaddr : BitVec 64)

def anyV2p : Entry :=
  match read (offsetIn 39 mm vaddr) with
  | none => 0#64
  | some pgd =>
    -- `goto out`, which returns `paddr`
    if !h.pgdPresent pgd then paddr
    else
      match read (h.pudOffset pgd vaddr) with
      | none => 0#64
      | some pud =>
        if !h.pudPresent pud || h.pudLarge pud then paddr
        else
          match read (h.pmdOffset pud vaddr) with
          | none => 0#64
          | some pmd =>
            if !h.pmdPresent pmd || h.pmdLarge pmd then paddr
            else
              match read (h.pteOffsetKernel pmd vaddr) with
              | none => 0#64
              | some pte =>
                if !h.ptePresent pte then paddr
                else (pte &&& physicalPageMask maskShift) ||| (vaddr &&& 0xfff#64)

/-! ## The processor -/

/-- The address in the page of an entry that leaves `left` levels out. -/
def addressIn (entry : Entry) (left : Nat) : Nat :=
  frame entry / 2 ^ (9 * left) * 2 ^ (12 + 9 * left) + vaddr.toNat % 2 ^ (12 + 9 * left)

/-- The physical address the processor goes to, by a page of any size. -/
def mmuTranslate : Option Nat :=
  if Canonical 48 vaddr then
    (Level.walk read vaddr mmuLast mmuLevels mm).bind fun found =>
      (read found.1).map fun entry => addressIn vaddr entry found.2
  else none

end

section

variable {h : Headers} {maskShift : Nat} {mm : Nat} {read : Nat → Option Entry} {vaddr : BitVec 64}
  {pgd pud pmd pte : Entry}

/-! ## Along the words of a walk -/

theorem anyV2p_way (way : OnWay h mm read vaddr pgd pud pmd pte) (passes : h.Passes pgd pud pmd)
    (paddr : Entry) :
    anyV2p h maskShift paddr mm read vaddr =
      if h.ptePresent pte then (pte &&& physicalPageMask maskShift) ||| (vaddr &&& 0xfff#64) else paddr := by
  obtain ⟨readPgd, readPud, readPmd, readPte⟩ := way
  obtain ⟨passPgd, ⟨passPud, smallPud⟩, ⟨passPmd, smallPmd⟩⟩ := passes
  simp only [anyV2p, readPgd, readPud, readPmd, readPte, passPgd, passPud, smallPud, passPmd, smallPmd]
  cases h.ptePresent pte <;> rfl

theorem walk_unread {shift table : Nat} {isLarge : Entry → Bool}
    {below : List (Level (BitVec 64) (Option Entry))} (unread : read (offsetIn shift table vaddr) = none) :
    Level.walk read vaddr mmuLast (entryLevel shift present isLarge tableOf :: below) table = none := by
  simp [Level.walk, entryLevel, unread]

theorem walk_small {shift table next : Nat} {isLarge : Entry → Bool} {entry : Entry}
    (below : List (Level (BitVec 64) (Option Entry)))
    (reads : read (offsetIn shift table vaddr) = some entry)
    (small : present entry → isLarge entry = false) (leads : present entry → next = tableOf entry) :
    Level.walk read vaddr mmuLast (entryLevel shift present isLarge tableOf :: below) table =
      if present entry then Level.walk read vaddr mmuLast below next else none := by
  by_cases there : present entry
  · simp [Level.walk, entryLevel, reads, there, small there, leads there]
  · simp [Level.walk, entryLevel, reads, there]

theorem walk_pgd (sound : h.Sound) (reads : read (offsetIn 39 mm vaddr) = some pgd) :
    Level.walk read vaddr mmuLast mmuLevels mm =
      if present pgd then Level.walk read vaddr mmuLast
        [entryLevel 30 present pse tableOf, entryLevel 21 present pse tableOf] (h.pgdPgtable pgd)
      else none :=
  walk_small _ reads (fun _ => rfl) (sound.pgd pgd)

theorem walk_pud (sound : h.Sound) (reads : read (h.pudOffset pgd vaddr) = some pud)
    (small : h.pudLarge pud = false) :
    Level.walk read vaddr mmuLast [entryLevel 30 present pse tableOf, entryLevel 21 present pse tableOf]
        (h.pgdPgtable pgd) =
      if present pud then Level.walk read vaddr mmuLast [entryLevel 21 present pse tableOf]
        (h.pudPgtable pud)
      else none := by
  have pageless (there : present pud) : pse pud = false := (sound.pudLarge pud there).symm.trans small
  exact walk_small _ reads pageless fun there => sound.pud pud there (pageless there)

theorem walk_pmd (sound : h.Sound) (reads : read (h.pmdOffset pud vaddr) = some pmd)
    (small : h.pmdLarge pmd = false) :
    Level.walk read vaddr mmuLast [entryLevel 21 present pse tableOf] (h.pudPgtable pud) =
      if present pmd then Level.walk read vaddr mmuLast [] (h.pmdPgtable pmd) else none := by
  have pageless (there : present pmd) : pse pmd = false := (sound.pmdLarge pmd there).symm.trans small
  exact walk_small _ reads pageless fun there => sound.pmd pmd there (pageless there)

/-- Where no test ends the walk of `any_v2p`, the processor's goes by the same words. -/
theorem walk_way (sound : h.Sound) (way : OnWay h mm read vaddr pgd pud pmd pte)
    (passes : h.Passes pgd pud pmd) :
    Level.walk read vaddr mmuLast mmuLevels mm =
      if present pgd ∧ present pud ∧ present pmd ∧ present pte then some (h.pteOffsetKernel pmd vaddr, 0)
      else none := by
  have last : Level.walk read vaddr mmuLast [] (h.pmdPgtable pmd) =
      if present pte then some (h.pteOffsetKernel pmd vaddr, 0) else none := by
    have reads : read (offsetIn 12 (h.pmdPgtable pmd) vaddr) = some pte := way.readPte
    rw [Level.walk]
    by_cases there : present pte
    · simp [mmuLast, reads, there, Headers.pteOffsetKernel]
    · simp [mmuLast, reads, there]
  rw [walk_pgd sound way.readPgd, walk_pud sound way.readPud passes.passPud.2,
    walk_pmd sound way.readPmd passes.passPmd.2, last]
  simp only [ite_and]

/-- `any_v2p` returns what it finds in `paddr`, or a word on the way of the processor cannot be
    read, or no test ends the walk. -/
theorem anyV2p_cases (sound : h.Sound) :
    (∀ paddr, anyV2p h maskShift paddr mm read vaddr = paddr) ∨
      Level.walk read vaddr mmuLast mmuLevels mm = none ∨
        ∃ pgd pud pmd pte, OnWay h mm read vaddr pgd pud pmd pte ∧ h.Passes pgd pud pmd := by
  cases readPgd : read (offsetIn 39 mm vaddr) with
  | none => exact .inr (.inl (walk_unread readPgd))
  | some pgd =>
    by_cases passPgd : h.pgdPresent pgd
    case neg => exact .inl fun paddr => by simp [anyV2p, readPgd, passPgd]
    rw [walk_pgd sound readPgd]
    cases readPud : read (h.pudOffset pgd vaddr) with
    | none =>
      have unread : Level.walk read vaddr mmuLast [entryLevel 30 present pse tableOf,
          entryLevel 21 present pse tableOf] (h.pgdPgtable pgd) = none := walk_unread readPud
      exact .inr (.inl (by rw [unread, ite_self]))
    | some pud =>
      by_cases passPud : h.pudPresent pud ∧ h.pudLarge pud = false
      case neg => exact .inl fun paddr => by simp [anyV2p, readPgd, passPgd, readPud, passPud]
      rw [walk_pud sound readPud passPud.2]
      cases readPmd : read (h.pmdOffset pud vaddr) with
      | none =>
        have unread : Level.walk read vaddr mmuLast [entryLevel 21 present pse tableOf]
            (h.pudPgtable pud) = none := walk_unread readPmd
        exact .inr (.inl (by rw [unread, ite_self, ite_self]))
      | some pmd =>
        by_cases passPmd : h.pmdPresent pmd ∧ h.pmdLarge pmd = false
        case neg =>
          exact .inl fun paddr => by simp [anyV2p, readPgd, passPgd, readPud, passPud, readPmd, passPmd]
        rw [walk_pmd sound readPmd passPmd.2]
        cases readPte : read (h.pteOffsetKernel pmd vaddr) with
        | none =>
          have unread : Level.walk read vaddr mmuLast [] (h.pmdPgtable pmd) = none := by
            have absent : read (mmuLast.slot (h.pmdPgtable pmd) vaddr) = none := readPte
            rw [Level.walk, absent]
            rfl
          exact .inr (.inl (by rw [unread, ite_self, ite_self, ite_self]))
        | some pte =>
          exact .inr (.inr ⟨pgd, pud, pmd, pte, ⟨readPgd, readPud, readPmd, readPte⟩,
            ⟨passPgd, passPud, passPmd⟩⟩)

/-! ## The address made of the last entry -/

theorem toNat_address (low : 12 ≤ maskShift) (high : maskShift ≤ 52) (entry : Entry) :
    ((entry &&& physicalPageMask maskShift) ||| (vaddr &&& 0xfff#64)).toNat =
      frame entry % 2 ^ (maskShift - 12) * 4096 + vaddr.toNat % 4096 := by
  have mask : (BitVec.ofNat 64 (2 ^ maskShift - 1)).toNat = 2 ^ maskShift - 1 := by
    have wide : 2 ^ maskShift ≤ 2 ^ 52 := Nat.pow_le_pow_right (by decide) high
    rw [BitVec.toNat_ofNat, Nat.mod_eq_of_lt (by omega)]
  have page : (entry &&& physicalPageMask maskShift).toNat =
      2 ^ 12 * (frame entry % 2 ^ (maskShift - 12)) := by
    have parts : 2 ^ maskShift = 4096 * 2 ^ (maskShift - 12) := by
      rw [show 4096 = 2 ^ 12 from rfl, ← Nat.pow_add, Nat.add_sub_cancel' low]
    have within : 2 ^ (maskShift - 12) ∣ 2 ^ 40 := Nat.pow_dvd_pow 2 (by omega)
    rw [physicalPageMask, BitVec.and_comm pageMask, ← BitVec.and_assoc, toNat_and_pageMask,
      BitVec.toNat_and, mask, Nat.and_two_pow_sub_one_eq_mod, parts, Nat.mod_mul_right_div_self,
      toNat_frame, Nat.mod_mod_of_dvd _ within, Nat.mul_comm (_ % _)]
    rfl
  have offset : vaddr.toNat % 4096 < 2 ^ 12 := Nat.mod_lt _ (by decide)
  rw [BitVec.toNat_or, page, toNat_and_lowMask, ← Nat.two_pow_add_eq_or_of_lt offset, Nat.mul_comm]

theorem mmuTranslate_small {slot : Nat} (reached : Canonical 48 vaddr)
    (walked : Level.walk read vaddr mmuLast mmuLevels mm = some (slot, 0)) (reads : read slot = some pte) :
    mmuTranslate mm read vaddr = some (frame pte * 4096 + vaddr.toNat % 4096) := by
  rw [mmuTranslate, if_pos reached, walked]
  simp [reads, addressIn]

/-- `any_v2p` gives the physical address of `vaddr`, whatever it finds in `paddr`, if and only if the
    processor has `vaddr` in a page of 4 KB whose frame the mask does not cut. -/
theorem any_v2p_iff (h : Headers) (sound : h.Sound)
    (ptePresent : ∀ entry, present entry → h.ptePresent entry)
    {maskShift : Nat} (low : 12 ≤ maskShift) (high : maskShift ≤ 52) (mm : Nat)
    (read : Nat → Option Entry) (vaddr : BitVec 64) :
    (∀ paddr, mmuTranslate mm read vaddr = some (anyV2p h maskShift paddr mm read vaddr).toNat) ↔
      ∃ slot pte, mmuPte mm read vaddr = some slot ∧ read slot = some pte ∧
        frame pte < 2 ^ (maskShift - 12) := by
  constructor
  · intro right
    have reached : Canonical 48 vaddr := by
      by_contra beyond
      simpa [mmuTranslate, beyond] using right 0#64
    have mapped : Level.walk read vaddr mmuLast mmuLevels mm ≠ none := by
      intro unmapped
      simpa [mmuTranslate, unmapped] using right 0#64
    rcases anyV2p_cases sound with unset | unmapped | ⟨pgd, pud, pmd, pte, way, passes⟩
    · -- two values of `paddr` give two results
      have same := (right 0#64).symm.trans (right 1#64)
      rw [unset, unset] at same
      cases same
    · exact absurd unmapped mapped
    · have walked := walk_way sound way passes
      by_cases there : present pgd ∧ present pud ∧ present pmd ∧ present pte
      case neg =>
        rw [if_neg there] at walked
        exact absurd walked mapped
      rw [if_pos there] at walked
      have translated := right 0#64
      rw [mmuTranslate_small reached walked way.readPte, anyV2p_way way passes,
        if_pos (ptePresent pte there.2.2.2), toNat_address low high, Option.some.injEq] at translated
      have found : mmuPte mm read vaddr = some (h.pteOffsetKernel pmd vaddr) := by
        rw [mmuPte, if_pos reached, walked]
        rfl
      have cut := Nat.mod_lt (frame pte) (Nat.two_pow_pos (maskShift - 12))
      exact ⟨_, pte, found, way.readPte, by omega⟩
  · rintro ⟨slot, pte, found, reads, small⟩ paddr
    have reached : Canonical 48 vaddr := by
      by_contra beyond
      rw [mmuPte, if_neg beyond] at found
      cases found
    rw [mmuPte, if_pos reached] at found
    have descends : Level.Descends read vaddr mmuLast mmuLevels mm := by
      by_contra stops
      rw [Level.lowest_walk_none stops] at found
      cases found
    obtain ⟨pgd, pud, pmd, entry, way, passes, there⟩ := (descends_mmu_iff sound).mp descends
    have walked := walk_way sound way passes
    rw [if_pos there] at walked
    rw [walked] at found
    obtain rfl : h.pteOffsetKernel pmd vaddr = slot := Option.some.inj found
    obtain rfl : entry = pte := Option.some.inj (way.readPte.symm.trans reads)
    rw [mmuTranslate_small reached walked reads, anyV2p_way way passes,
      if_pos (ptePresent entry there.2.2.2), toNat_address low high, Nat.mod_eq_of_lt small]

/-- A page of `vmalloc`, on a kernel that takes addresses for 52 bits. -/
theorem any_v2p_sample :
    mmuTranslate 0x1000 (vmallocTables 0x8000000000005063#64) 0xffffc90000000123#64 =
      some (anyV2p x86 52 0xdeadbeef#64 0x1000 (vmallocTables 0x8000000000005063#64)
        0xffffc90000000123#64).toNat := by
  have ptePresent (entry : Entry) (there : present entry) : x86.ptePresent entry := by
    simp [x86, there]
  refine (any_v2p_iff x86 x86_sound ptePresent (by decide) (by decide) 0x1000 _ _).mpr ?_ _
  exact ⟨0x4000, 0x8000000000005063#64, by decide, by decide, by decide⟩

end

end TestPrograms.PciEnabler
