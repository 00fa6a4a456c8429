import TestPrograms.Devmem.PageWalk

/-! # The module's own page walk

`get_pte` of `bypass_ipstack` tests every word on the way, after probing that it can be read.
By the time it looks at the last one the result is assigned already, and an entry that is not
present leaves through the exit that returns it.
-/

namespace TestPrograms.Genpipe

open TestPrograms.Foundations
open TestPrograms.Devmem (present pse frame offsetIn Canonical)

abbrev Entry := BitVec 64

def tableOf (entry : Entry) : Nat := frame entry * 4096

/-- What the kernel's headers provide. -/
structure Headers where
  pgdPresent : Entry → Bool
  pudPresent : Entry → Bool
  pudLarge : Entry → Bool
  pmdPresent : Entry → Bool
  pmdLarge : Entry → Bool
  ptePresent : Entry → Bool
  pgdPgtable : Entry → Nat
  pudPgtable : Entry → Nat
  pmdPgtable : Entry → Nat

/-- Entries present to the processor pass as present, are large where they have PSE set, and
    lead to the table in their frame where they are not. -/
structure Headers.Sound (h : Headers) : Prop where
  pgdPresent : ∀ entry, present entry → h.pgdPresent entry
  pudPresent : ∀ entry, present entry → h.pudPresent entry
  pmdPresent : ∀ entry, present entry → h.pmdPresent entry
  pudLarge : ∀ entry, present entry → h.pudLarge entry = pse entry
  pmdLarge : ∀ entry, present entry → h.pmdLarge entry = pse entry
  pgd : ∀ entry, present entry → h.pgdPgtable entry = tableOf entry
  pud : ∀ entry, present entry → pse entry = false → h.pudPgtable entry = tableOf entry
  pmd : ∀ entry, present entry → pse entry = false → h.pmdPgtable entry = tableOf entry

section

variable (h : Headers)

def Headers.pudOffset (pgd vaddr : Entry) : Nat := offsetIn 30 (h.pgdPgtable pgd) vaddr

def Headers.pmdOffset (pud vaddr : Entry) : Nat := offsetIn 21 (h.pudPgtable pud) vaddr

def Headers.pteOffsetKernel (pmd vaddr : Entry) : Nat := offsetIn 12 (h.pmdPgtable pmd) vaddr

-- The top table of `current->mm`, and what is read at an address: `none` where
-- `probe_kernel_address` fails.
variable (mm : Nat) (read : Nat → Option Entry) (vaddr : BitVec 64)

def getPte : Option Nat :=
  match read (offsetIn 39 mm vaddr) with
  | none => none
  | some pgd =>
    if !h.pgdPresent pgd then none
    else
      match read (h.pudOffset pgd vaddr) with
      | none => none
      | some pud =>
        if !h.pudPresent pud || h.pudLarge pud then none
        else
          match read (h.pmdOffset pud vaddr) with
          | none => none
          | some pmd =>
            if !h.pmdPresent pmd || h.pmdLarge pmd then none
            else
              let pte := h.pteOffsetKernel pmd vaddr
              match read pte with
              | none => none
              | some entry =>
                -- `goto out`, which returns `pte`
                if !h.ptePresent entry then some pte
                else some pte

/-! ## The walks by levels -/

/-- A level whose words may be unreadable; nothing is found at those. -/
def entryLevel (shift : Nat) (isPresent isLarge : Entry → Bool) (next : Entry → Nat) :
    Level (BitVec 64) (Option Entry) where
  slot := offsetIn shift
  absent word := word.elim true fun entry => !isPresent entry
  large word := word.elim false isLarge
  next word := word.elim 0 next

def getPteLevels : List (Level (BitVec 64) (Option Entry)) :=
  [entryLevel 39 h.pgdPresent (fun _ => false) h.pgdPgtable,
    entryLevel 30 h.pudPresent h.pudLarge h.pudPgtable, entryLevel 21 h.pmdPresent h.pmdLarge h.pmdPgtable]

/-- The last word is only read. -/
def getPteLast : Table (BitVec 64) (Option Entry) where
  slot := offsetIn 12
  absent word := word.isNone

def mmuLevels : List (Level (BitVec 64) (Option Entry)) :=
  [entryLevel 39 present (fun _ => false) tableOf, entryLevel 30 present pse tableOf,
    entryLevel 21 present pse tableOf]

def mmuLast : Table (BitVec 64) (Option Entry) where
  slot := offsetIn 12
  absent word := word.elim true fun entry => !present entry

/-- The present entry of a 4 KB page, where the processor's walk ends in one. -/
def mmuPte : Option Nat :=
  if Canonical 48 vaddr then Level.lowest (Level.walk read vaddr mmuLast mmuLevels mm) else none

/-- The words that `get_pte` reads if no test ends it. -/
structure OnWay (pgd pud pmd pte : Entry) : Prop where
  readPgd : read (offsetIn 39 mm vaddr) = some pgd
  readPud : read (h.pudOffset pgd vaddr) = some pud
  readPmd : read (h.pmdOffset pud vaddr) = some pmd
  readPte : read (h.pteOffsetKernel pmd vaddr) = some pte

/-- No test on the first three ends the walk. -/
structure Headers.Passes (pgd pud pmd : Entry) : Prop where
  passPgd : h.pgdPresent pgd
  passPud : h.pudPresent pud ∧ h.pudLarge pud = false
  passPmd : h.pmdPresent pmd ∧ h.pmdLarge pmd = false

end

section

variable {h : Headers} {mm : Nat} {read : Nat → Option Entry} {vaddr : BitVec 64}

theorem lowest_walk_entryLevel {last : Table (BitVec 64) (Option Entry)} (shift : Nat)
    (isPresent isLarge : Entry → Bool) (next : Entry → Nat)
    (below : List (Level (BitVec 64) (Option Entry))) (table : Nat) :
    Level.lowest (Level.walk read vaddr last (entryLevel shift isPresent isLarge next :: below) table) =
      (read (offsetIn shift table vaddr)).bind fun entry =>
        if !isPresent entry || isLarge entry then none
        else Level.lowest (Level.walk read vaddr last below (next entry)) := by
  rw [Level.lowest_walk_cons]
  cases found : read (offsetIn shift table vaddr) <;> simp [entryLevel, found]

theorem getPte_eq_walk :
    getPte h mm read vaddr = Level.lowest (Level.walk read vaddr getPteLast (getPteLevels h) mm) := by
  rw [getPteLevels, lowest_walk_entryLevel, getPte]
  cases read (offsetIn 39 mm vaddr) with
  | none => rfl
  | some pgd =>
    simp only [Option.bind_some, Bool.or_false]
    refine if_congr Iff.rfl rfl ?_
    rw [lowest_walk_entryLevel, Headers.pudOffset]
    cases read (offsetIn 30 (h.pgdPgtable pgd) vaddr) with
    | none => rfl
    | some pud =>
      simp only [Option.bind_some]
      refine if_congr Iff.rfl rfl ?_
      rw [lowest_walk_entryLevel, Headers.pmdOffset]
      cases read (offsetIn 21 (h.pudPgtable pud) vaddr) with
      | none => rfl
      | some pmd =>
        simp only [Option.bind_some]
        refine if_congr Iff.rfl rfl ?_
        rw [Level.lowest_walk_nil, Headers.pteOffsetKernel, getPteLast]
        -- whether the entry is present or not
        cases read (offsetIn 12 (h.pmdPgtable pmd) vaddr) with
        | none => rfl
        | some entry => exact ite_self _

theorem getPteLevels_agree (sound : h.Sound) : List.Forall₂ Level.Agrees (getPteLevels h) mmuLevels := by
  refine .cons ⟨rfl, fun word there _ => ?_⟩ (.cons ⟨rfl, fun word there small => ?_⟩
    (.cons ⟨rfl, fun word there small => ?_⟩ .nil))
  · cases word with
    | none => cases there
    | some entry => exact sound.pgd entry (by simpa [entryLevel] using there)
  · cases word with
    | none => cases there
    | some entry => exact sound.pud entry (by simpa [entryLevel] using there) small
  · cases word with
    | none => cases there
    | some entry => exact sound.pmd entry (by simpa [entryLevel] using there) small

theorem descends_entryLevel {last : Table (BitVec 64) (Option Entry)} {shift : Nat}
    {isPresent isLarge : Entry → Bool} {next : Entry → Nat}
    {below : List (Level (BitVec 64) (Option Entry))} {table : Nat} :
    Level.Descends read vaddr last (entryLevel shift isPresent isLarge next :: below) table ↔
      ∃ entry, read (offsetIn shift table vaddr) = some entry ∧
        (isPresent entry ∧ isLarge entry = false) ∧ Level.Descends read vaddr last below (next entry) := by
  rw [Level.Descends]
  cases found : read (offsetIn shift table vaddr) <;> simp [entryLevel, found]

theorem descends_getPte_iff :
    Level.Descends read vaddr getPteLast (getPteLevels h) mm ↔
      ∃ pgd pud pmd pte, OnWay h mm read vaddr pgd pud pmd pte ∧ h.Passes pgd pud pmd := by
  have last (table : Nat) : Level.Descends read vaddr getPteLast [] table ↔
      ∃ pte, read (offsetIn 12 table vaddr) = some pte := by
    rw [Level.Descends]
    cases found : read (offsetIn 12 table vaddr) <;> simp [getPteLast, found]
  simp only [getPteLevels, descends_entryLevel, last]
  constructor
  · rintro ⟨pgd, readPgd, ⟨passPgd, -⟩, pud, readPud, passPud, pmd, readPmd, passPmd, pte, readPte⟩
    exact ⟨pgd, pud, pmd, pte, ⟨readPgd, readPud, readPmd, readPte⟩, ⟨passPgd, passPud, passPmd⟩⟩
  · rintro ⟨pgd, pud, pmd, pte, ⟨readPgd, readPud, readPmd, readPte⟩, ⟨passPgd, passPud, passPmd⟩⟩
    exact ⟨pgd, readPgd, ⟨passPgd, trivial⟩, pud, readPud, passPud, pmd, readPmd, passPmd, pte, readPte⟩

/-- The processor's walk descends by the words that `get_pte` reads. -/
theorem descends_mmu_iff (sound : h.Sound) :
    Level.Descends read vaddr mmuLast mmuLevels mm ↔
      ∃ pgd pud pmd pte, OnWay h mm read vaddr pgd pud pmd pte ∧ h.Passes pgd pud pmd ∧
        present pgd ∧ present pud ∧ present pmd ∧ present pte := by
  have last (table : Nat) : Level.Descends read vaddr mmuLast [] table ↔
      ∃ pte, read (offsetIn 12 table vaddr) = some pte ∧ present pte := by
    rw [Level.Descends]
    cases found : read (offsetIn 12 table vaddr) <;> simp [mmuLast, found]
  simp only [mmuLevels, descends_entryLevel, last]
  constructor
  · rintro ⟨pgd, readPgd, ⟨therePgd, -⟩, pud, readPud, ⟨therePud, smallPud⟩, pmd, readPmd,
      ⟨therePmd, smallPmd⟩, pte, readPte, therePte⟩
    refine ⟨pgd, pud, pmd, pte, ⟨readPgd, ?_, ?_, ?_⟩, ⟨sound.pgdPresent _ therePgd, ?_, ?_⟩, therePgd,
      therePud, therePmd, therePte⟩
    · rw [Headers.pudOffset, sound.pgd _ therePgd]
      exact readPud
    · rw [Headers.pmdOffset, sound.pud _ therePud smallPud]
      exact readPmd
    · rw [Headers.pteOffsetKernel, sound.pmd _ therePmd smallPmd]
      exact readPte
    · exact ⟨sound.pudPresent _ therePud, (sound.pudLarge _ therePud).trans smallPud⟩
    · exact ⟨sound.pmdPresent _ therePmd, (sound.pmdLarge _ therePmd).trans smallPmd⟩
  · rintro ⟨pgd, pud, pmd, pte, ⟨readPgd, readPud, readPmd, readPte⟩, ⟨-, passPud, passPmd⟩, therePgd,
      therePud, therePmd, therePte⟩
    have smallPud := (sound.pudLarge _ therePud).symm.trans passPud.2
    have smallPmd := (sound.pmdLarge _ therePmd).symm.trans passPmd.2
    rw [Headers.pudOffset, sound.pgd _ therePgd] at readPud
    rw [Headers.pmdOffset, sound.pud _ therePud smallPud] at readPmd
    rw [Headers.pteOffsetKernel, sound.pmd _ therePmd smallPmd] at readPte
    exact ⟨pgd, readPgd, ⟨therePgd, trivial⟩, pud, readPud, ⟨therePud, smallPud⟩, pmd, readPmd,
      ⟨therePmd, smallPmd⟩, pte, readPte, therePte⟩

/-- The words on the way are the only ones. -/
theorem OnWay.unique {pgd pud pmd pte pgd' pud' pmd' pte' : Entry}
    (way : OnWay h mm read vaddr pgd pud pmd pte) (way' : OnWay h mm read vaddr pgd' pud' pmd' pte') :
    pgd = pgd' ∧ pud = pud' ∧ pmd = pmd' ∧ pte = pte' := by
  obtain ⟨readPgd, readPud, readPmd, readPte⟩ := way
  obtain rfl := Option.some.inj (readPgd.symm.trans way'.readPgd)
  obtain rfl := Option.some.inj (readPud.symm.trans way'.readPud)
  obtain rfl := Option.some.inj (readPmd.symm.trans way'.readPmd)
  exact ⟨rfl, rfl, rfl, Option.some.inj (readPte.symm.trans way'.readPte)⟩

end

/-- `get_pte` finds the entry the processor uses, and none where it uses none of a 4 KB page,
    if and only if the address is canonical and every word present wherever the words can be
    read and pass the tests on the first three. -/
theorem getPte_eq_mmuPte_iff (h : Headers) (sound : h.Sound) (mm : Nat) (read : Nat → Option Entry)
    (vaddr : BitVec 64) :
    getPte h mm read vaddr = mmuPte mm read vaddr ↔
      ∀ pgd pud pmd pte, OnWay h mm read vaddr pgd pud pmd pte → h.Passes pgd pud pmd →
        Canonical 48 vaddr ∧ present pgd ∧ present pud ∧ present pmd ∧ present pte := by
  have slots : getPteLast.slot = mmuLast.slot := rfl
  rw [getPte_eq_walk, mmuPte, Level.lowest_walk_eq_ite_iff (getPteLevels_agree sound) slots,
    descends_getPte_iff, descends_mmu_iff sound]
  constructor
  · rintro agree pgd pud pmd pte way passes
    obtain ⟨canonical, pgd', pud', pmd', pte', way', -, there⟩ := agree.mp ⟨pgd, pud, pmd, pte, way, passes⟩
    obtain ⟨rfl, rfl, rfl, rfl⟩ := way.unique way'
    exact ⟨canonical, there⟩
  · intro all
    constructor
    · rintro ⟨pgd, pud, pmd, pte, way, passes⟩
      obtain ⟨canonical, there⟩ := all pgd pud pmd pte way passes
      exact ⟨canonical, pgd, pud, pmd, pte, way, passes, there⟩
    · rintro ⟨-, pgd, pud, pmd, pte, way, passes, -⟩
      exact ⟨pgd, pud, pmd, pte, way, passes⟩

/-! ## The headers of x86-64 -/

def protNone (entry : Entry) : Bool := entry.getLsbD 8

/-- `pmd_present` and `pte_present` are also true of entries that the kernel only keeps for itself. -/
def x86 : Headers where
  pgdPresent := present
  pudPresent := present
  pudLarge entry := present entry && pse entry
  pmdPresent entry := present entry || protNone entry || pse entry
  pmdLarge := pse
  ptePresent entry := present entry || protNone entry
  pgdPgtable := tableOf
  pudPgtable := tableOf
  pmdPgtable := tableOf

theorem x86_sound : x86.Sound where
  pgdPresent _ there := there
  pudPresent _ there := there
  pmdPresent entry there := by simp [x86, there]
  pudLarge entry there := by simp [x86, there]
  pmdLarge _ _ := rfl
  pgd _ _ := rfl
  pud _ _ _ := rfl
  pmd _ _ _ := rfl

/-! ## An entry that is not there -/

/-- Tables at `0x1000` to `0x4000` for `0xffffc90000000000`, with one entry each. -/
def vmallocTables (pte : Entry) (a : Nat) : Option Entry :=
  if a = 0x1c90 then some 0x2063#64
  else if a = 0x2000 then some 0x3063#64
  else if a = 0x3000 then some 0x4063#64
  else if a = 0x4000 then some pte
  else none

theorem absent_entry_returned :
    getPte x86 0x1000 (vmallocTables 0#64) 0xffffc90000000000#64 = some 0x4000 ∧
      mmuPte 0x1000 (vmallocTables 0#64) 0xffffc90000000000#64 = none := by
  decide

/-- The same tables with the page present. -/
theorem live_entry_returned :
    getPte x86 0x1000 (vmallocTables 0x5063#64) 0xffffc90000000000#64 =
      mmuPte 0x1000 (vmallocTables 0x5063#64) 0xffffc90000000000#64 := by
  refine (getPte_eq_mmuPte_iff x86 x86_sound 0x1000 _ _).mpr fun pgd pud pmd pte way _ => ?_
  have there : OnWay x86 0x1000 (vmallocTables 0x5063#64) 0xffffc90000000000#64 0x2063#64 0x3063#64 0x4063#64
      0x5063#64 := ⟨by decide, by decide, by decide, by decide⟩
  obtain ⟨rfl, rfl, rfl, rfl⟩ := there.unique way
  decide

end TestPrograms.Genpipe
