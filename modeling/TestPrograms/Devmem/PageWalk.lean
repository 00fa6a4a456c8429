import TestPrograms.Devmem.Kernel
import TestPrograms.Foundations.RadixWalk

/-! # The page walk

`get_pte4` and `get_pte5`, which `kmem` and `pmem` have alike, and the walk of the processor.
The drivers test for entries that are empty, the processor for entries that are not present
and for large pages; where an entry is neither empty nor a present table, the drivers go on
into whatever it points at.
-/

namespace TestPrograms.Devmem

open TestPrograms.Foundations

/-! ## Entries -/

-- `_PAGE_PRESENT`
def present (entry : BitVec 64) : Bool := entry.getLsbD 0

-- `_PAGE_PSE`
def pse (entry : BitVec 64) : Bool := entry.getLsbD 7

/-- What the kernel's headers provide: the tests of an entry, and the table it leads to. -/
structure Pgtable where
  pgdNone : BitVec 64 → Bool
  pgdBad : BitVec 64 → Bool
  p4dNone : BitVec 64 → Bool
  p4dBad : BitVec 64 → Bool
  pudNone : BitVec 64 → Bool
  pmdNone : BitVec 64 → Bool
  pteNone : BitVec 64 → Bool
  pgdPgtable : BitVec 64 → Nat
  p4dPgtable : BitVec 64 → Nat
  pudPgtable : BitVec 64 → Nat
  pmdPgtable : BitVec 64 → Nat

/-- A present entry that is not a large page leads to the table in its frame. -/
structure Pgtable.Sound (h : Pgtable) : Prop where
  pgd : ∀ entry, present entry → h.pgdPgtable entry = frame entry * 4096
  p4d : ∀ entry, present entry → h.p4dPgtable entry = frame entry * 4096
  pud : ∀ entry, present entry → pse entry = false → h.pudPgtable entry = frame entry * 4096
  pmd : ∀ entry, present entry → pse entry = false → h.pmdPgtable entry = frame entry * 4096

/-- The entry for an address in a table whose entries cover `2 ^ shift` bytes each. -/
def offsetIn (shift table : Nat) (vaddr : BitVec 64) : Nat :=
  table + 8 * (vaddr >>> shift &&& 0x1ff#64).toNat

section

variable (h : Pgtable)

def Pgtable.p4dOffset (pgd vaddr : BitVec 64) : Nat := offsetIn 39 (h.pgdPgtable pgd) vaddr

def Pgtable.pudOffset (p4d vaddr : BitVec 64) : Nat := offsetIn 30 (h.p4dPgtable p4d) vaddr

def Pgtable.pmdOffset (pud vaddr : BitVec 64) : Nat := offsetIn 21 (h.pudPgtable pud) vaddr

def Pgtable.pteOffsetKernel (pmd vaddr : BitVec 64) : Nat := offsetIn 12 (h.pmdPgtable pmd) vaddr

/-! ## The drivers -/

-- `mm` is the top table of `current->mm`.
variable (mm : Nat) (memory : Memory) (vaddr : BitVec 64)

def getPte4 : Option Nat :=
  let pgd := offsetIn 39 mm vaddr
  if h.pgdNone (pteVal memory pgd) then none
  else
    -- `(p4d_t *)pgd`
    let pud := h.pudOffset (pteVal memory pgd) vaddr
    if h.pudNone (pteVal memory pud) then none
    else
      let pmd := h.pmdOffset (pteVal memory pud) vaddr
      if h.pmdNone (pteVal memory pmd) then none
      else
        let pte := h.pteOffsetKernel (pteVal memory pmd) vaddr
        if h.pteNone (pteVal memory pte) then none else some pte

def getPte5 : Option Nat :=
  let pgd := offsetIn 48 mm vaddr
  if h.pgdNone (pteVal memory pgd) || h.pgdBad (pteVal memory pgd) then none
  else
    let p4d := h.p4dOffset (pteVal memory pgd) vaddr
    if h.p4dNone (pteVal memory p4d) || h.p4dBad (pteVal memory p4d) then none
    else
      let pud := h.pudOffset (pteVal memory p4d) vaddr
      if h.pudNone (pteVal memory pud) then none
      else
        let pmd := h.pmdOffset (pteVal memory pud) vaddr
        if h.pmdNone (pteVal memory pmd) then none
        else
          let pte := h.pteOffsetKernel (pteVal memory pmd) vaddr
          if h.pteNone (pteVal memory pte) then
            -- the same entry is looked at once more
            let pte := h.pteOffsetKernel (pteVal memory pmd) vaddr
            if h.pteNone (pteVal memory pte) then none else some pte
          else some pte

/-! ## The processor -/

def mmuLevel (shift : Nat) (large : Bool) : Level (BitVec 64) (BitVec 64) where
  slot := offsetIn shift
  absent entry := !present entry
  large entry := large && pse entry
  next entry := frame entry * 4096

def mmuLast : Table (BitVec 64) (BitVec 64) where
  slot := offsetIn 12
  absent entry := !present entry

def mmuLevels (la57 : Bool) : List (Level (BitVec 64) (BitVec 64)) :=
  (if la57 then [mmuLevel 48 false] else []) ++ [mmuLevel 39 false, mmuLevel 30 true, mmuLevel 21 true]

def vaddrBits (la57 : Bool) : Nat := if la57 then 57 else 48

/-- Canonical for a virtual address of `bits` bits: all bits from `bits - 1` up agree. -/
def Canonical (bits : Nat) (address : BitVec 64) : Prop :=
  address.toNat < 2 ^ (bits - 1) ∨ 2 ^ 64 - 2 ^ (bits - 1) ≤ address.toNat

instance (bits : Nat) (address : BitVec 64) : Decidable (Canonical bits address) :=
  inferInstanceAs (Decidable (_ ∨ _))

/-- The entry that maps an address, with the number of levels its page leaves out. -/
def mmuWalk (la57 : Bool) : Option (Nat × Nat) :=
  if Canonical (vaddrBits la57) vaddr then
    Level.walk (pteVal memory) vaddr mmuLast (mmuLevels la57) mm
  else none

/-- The present entry of a 4 KB page, where the walk ends in one. -/
def mmuPte (la57 : Bool) : Option Nat := Level.lowest (mmuWalk mm memory vaddr la57)

/-! ## The words on the way -/

/-- What is read on the way to the last table if nothing ends the walk early.  With four
    levels the `p4d` is the `pgd`. -/
structure Way where
  pgd : BitVec 64
  p4d : BitVec 64
  pud : BitVec 64
  pmd : BitVec 64
  pte : BitVec 64

def Pgtable.wayFrom (p4dSlot : Nat) (pgd : BitVec 64) : Way :=
  let p4d := pteVal memory p4dSlot
  let pud := pteVal memory (h.pudOffset p4d vaddr)
  let pmd := pteVal memory (h.pmdOffset pud vaddr)
  { pgd, p4d, pud, pmd, pte := pteVal memory (h.pteOffsetKernel pmd vaddr) }

def Pgtable.way4 : Way :=
  h.wayFrom memory vaddr (offsetIn 39 mm vaddr) (pteVal memory (offsetIn 39 mm vaddr))

def Pgtable.way5 : Way :=
  let pgd := pteVal memory (offsetIn 48 mm vaddr)
  h.wayFrom memory vaddr (h.p4dOffset pgd vaddr) pgd

/-- One of the tests of `get_pte4` stops it. -/
def Way.Stops4 (w : Way) : Prop :=
  h.pgdNone w.pgd ∨ h.pudNone w.pud ∨ h.pmdNone w.pmd ∨ h.pteNone w.pte

def Way.Stops5 (w : Way) : Prop :=
  h.pgdNone w.pgd ∨ h.pgdBad w.pgd ∨ h.p4dNone w.p4d ∨ h.p4dBad w.p4d ∨ h.pudNone w.pud ∨
    h.pmdNone w.pmd ∨ h.pteNone w.pte

/-- Every word is a present entry, and the page is a small one. -/
def Way.Maps (w : Way) : Prop :=
  present w.pgd ∧ present w.p4d ∧ (present w.pud ∧ pse w.pud = false) ∧
    (present w.pmd ∧ pse w.pmd = false) ∧ present w.pte

end

instance (h : Pgtable) (w : Way) : Decidable (w.Stops4 h) := inferInstanceAs (Decidable (_ ∨ _))

instance (w : Way) : Decidable w.Maps := inferInstanceAs (Decidable (_ ∧ _))

/-! ## The drivers' walk as a walk by levels -/

def driverLevel (shift : Nat) (absent : BitVec 64 → Bool) (next : BitVec 64 → Nat) :
    Level (BitVec 64) (BitVec 64) where
  slot := offsetIn shift
  absent := absent
  large _ := false
  next := next

def driverLast (h : Pgtable) : Table (BitVec 64) (BitVec 64) where
  slot := offsetIn 12
  absent := h.pteNone

def driverLow (h : Pgtable) : List (Level (BitVec 64) (BitVec 64)) :=
  [driverLevel 30 h.pudNone h.pudPgtable, driverLevel 21 h.pmdNone h.pmdPgtable]

def driver4 (h : Pgtable) : List (Level (BitVec 64) (BitVec 64)) :=
  driverLevel 39 h.pgdNone h.p4dPgtable :: driverLow h

def driver5 (h : Pgtable) : List (Level (BitVec 64) (BitVec 64)) :=
  driverLevel 48 (fun entry => h.pgdNone entry || h.pgdBad entry) h.pgdPgtable ::
    driverLevel 39 (fun entry => h.p4dNone entry || h.p4dBad entry) h.p4dPgtable :: driverLow h

section

variable {h : Pgtable} {mm : Nat} {memory : Memory} {vaddr : BitVec 64}

theorem getPte4_eq_walk : getPte4 h mm memory vaddr =
    Level.lowest (Level.walk (pteVal memory) vaddr (driverLast h) (driver4 h) mm) := by
  simp only [getPte4, driver4, driverLow, Level.lowest_walk_cons, Level.lowest_walk_nil, driverLevel,
    driverLast, Bool.or_false, Pgtable.pudOffset, Pgtable.pmdOffset, Pgtable.pteOffsetKernel]
  rfl

theorem getPte5_eq_walk : getPte5 h mm memory vaddr =
    Level.lowest (Level.walk (pteVal memory) vaddr (driverLast h) (driver5 h) mm) := by
  -- the second look at the last entry finds what the first one found
  have again (c : Bool) (pte : Nat) :
      (if c then (if c then none else some pte) else some pte) = if c then none else some pte := by
    cases c <;> rfl
  unfold getPte5
  simp only [again]
  simp only [driver5, driverLow, Level.lowest_walk_cons, Level.lowest_walk_nil, driverLevel, driverLast,
    Bool.or_false, Pgtable.p4dOffset, Pgtable.pudOffset, Pgtable.pmdOffset, Pgtable.pteOffsetKernel]
  rfl

theorem descends_driver4 :
    Level.Descends (pteVal memory) vaddr (driverLast h) (driver4 h) mm ↔
      ¬ (h.way4 mm memory vaddr).Stops4 h := by
  simp only [driver4, driverLow, Level.Descends, driverLevel, driverLast, Way.Stops4, Pgtable.way4,
    Pgtable.wayFrom, Pgtable.pudOffset, Pgtable.pmdOffset, Pgtable.pteOffsetKernel, and_true, not_or,
    Bool.not_eq_true]

theorem descends_driver5 :
    Level.Descends (pteVal memory) vaddr (driverLast h) (driver5 h) mm ↔
      ¬ (h.way5 mm memory vaddr).Stops5 h := by
  simp only [driver5, driverLow, Level.Descends, driverLevel, driverLast, Way.Stops5, Pgtable.way5,
    Pgtable.wayFrom, Pgtable.p4dOffset, Pgtable.pudOffset, Pgtable.pmdOffset, Pgtable.pteOffsetKernel,
    and_true, not_or, Bool.not_eq_true, Bool.or_eq_false_iff, and_assoc]

theorem driver4_agrees (sound : h.Sound) :
    List.Forall₂ Level.Agrees (driver4 h) (mmuLevels false) := by
  refine .cons ⟨rfl, fun entry there _ => sound.p4d entry ?_⟩ (.cons ⟨rfl, fun entry there small => ?_⟩
    (.cons ⟨rfl, fun entry there small => ?_⟩ .nil))
  · simpa [mmuLevel] using there
  · exact sound.pud entry (by simpa [mmuLevel] using there) (by simpa [mmuLevel] using small)
  · exact sound.pmd entry (by simpa [mmuLevel] using there) (by simpa [mmuLevel] using small)

theorem driver5_agrees (sound : h.Sound) :
    List.Forall₂ Level.Agrees (driver5 h) (mmuLevels true) := by
  refine .cons ⟨rfl, fun entry there _ => sound.pgd entry ?_⟩
    (.cons ⟨rfl, fun entry there _ => sound.p4d entry ?_⟩ ?_)
  · simpa [mmuLevel] using there
  · simpa [mmuLevel] using there
  · cases driver4_agrees sound with
    | cons _ low => exact low

theorem descends_mmu4 (sound : h.Sound) :
    Level.Descends (pteVal memory) vaddr mmuLast (mmuLevels false) mm ↔
      (h.way4 mm memory vaddr).Maps := by
  rw [Level.descends_next (driver4_agrees sound)]
  simp [mmuLevels, mmuLevel, mmuLast, driver4, driverLow, driverLevel, Level.Descends, Way.Maps,
    Pgtable.way4, Pgtable.wayFrom, Pgtable.pudOffset, Pgtable.pmdOffset, Pgtable.pteOffsetKernel]

theorem descends_mmu5 (sound : h.Sound) :
    Level.Descends (pteVal memory) vaddr mmuLast (mmuLevels true) mm ↔
      (h.way5 mm memory vaddr).Maps := by
  rw [Level.descends_next (driver5_agrees sound)]
  simp [mmuLevels, mmuLevel, mmuLast, driver5, driverLow, driverLevel, Level.Descends, Way.Maps,
    Pgtable.way5, Pgtable.wayFrom, Pgtable.p4dOffset, Pgtable.pudOffset, Pgtable.pmdOffset,
    Pgtable.pteOffsetKernel]

/-! ## When the two walks agree -/

theorem eq_mmuPte_iff {la57 : Bool} {levels : List (Level (BitVec 64) (BitVec 64))}
    (agree : List.Forall₂ Level.Agrees levels (mmuLevels la57)) :
    Level.lowest (Level.walk (pteVal memory) vaddr (driverLast h) levels mm) =
        mmuPte mm memory vaddr la57 ↔
      (Level.Descends (pteVal memory) vaddr (driverLast h) levels mm ↔
        Canonical (vaddrBits la57) vaddr ∧
          Level.Descends (pteVal memory) vaddr mmuLast (mmuLevels la57) mm) := by
  -- the processor does not start the walk for an address that is not canonical
  rw [mmuPte, mmuWalk, apply_ite Level.lowest, Level.lowest_none]
  have slots : (driverLast h).slot = mmuLast.slot := rfl
  exact Level.lowest_walk_eq_ite_iff agree slots (Canonical (vaddrBits la57) vaddr)

end

/-- The drivers find the entry that the processor uses, and none where it has none for a small
    page, if and only if none of their tests stops them where every word is present and no page
    large, and some test does where this is not so. -/
theorem page_walk_iff (h : Pgtable) (sound : h.Sound) (mm : Nat) (memory : Memory) (vaddr : BitVec 64) :
    (getPte4 h mm memory vaddr = mmuPte mm memory vaddr false ↔
      (¬ (h.way4 mm memory vaddr).Stops4 h ↔
        Canonical 48 vaddr ∧ (h.way4 mm memory vaddr).Maps)) ∧
    (getPte5 h mm memory vaddr = mmuPte mm memory vaddr true ↔
      (¬ (h.way5 mm memory vaddr).Stops5 h ↔
        Canonical 57 vaddr ∧ (h.way5 mm memory vaddr).Maps)) := by
  constructor
  · rw [getPte4_eq_walk, eq_mmuPte_iff (driver4_agrees sound), descends_driver4,
      descends_mmu4 sound]
    rfl
  · rw [getPte5_eq_walk, eq_mmuPte_iff (driver5_agrees sound), descends_driver5,
      descends_mmu5 sound]
    rfl

/-! ## The headers of x86-64 -/

/-- `_PAGE_KNL_ERRATUM_MASK`: the accessed and dirty bits do not make an entry. -/
def entryNone (entry : BitVec 64) : Bool := entry &&& ~~~0x60#64 = 0#64

-- `PTE_FLAGS_MASK`
def flagsOf (entry : BitVec 64) : BitVec 64 := entry &&& 0xfff0000000000fff#64

/-- With four levels the tests of the `pgd` are switched off. -/
def x86 (la57 : Bool) : Pgtable where
  pgdNone entry := la57 && entry = 0#64
  -- but for `_PAGE_USER` the flags are `_KERNPG_TABLE`
  pgdBad entry := la57 && flagsOf entry &&& ~~~0x4#64 ≠ 0x63#64
  p4dNone := entryNone
  p4dBad entry := flagsOf entry &&& ~~~0x67#64 ≠ 0#64
  pudNone := entryNone
  pmdNone := entryNone
  pteNone := entryNone
  pgdPgtable entry := frame entry * 4096
  p4dPgtable entry := frame entry * 4096
  -- the low bits of a large page's frame are flags
  pudPgtable entry := if pse entry then frame entry / 2 ^ 18 * 2 ^ 30 else frame entry * 4096
  pmdPgtable entry := if pse entry then frame entry / 2 ^ 9 * 2 ^ 21 else frame entry * 4096

theorem x86_sound (la57 : Bool) : (x86 la57).Sound where
  pgd _ _ := rfl
  p4d _ _ := rfl
  pud entry _ small := by simp only [x86, small, Bool.false_eq_true, if_false]
  pmd entry _ small := by simp only [x86, small, Bool.false_eq_true, if_false]

/-! ## The direct map in a large page -/

/-- Tables for `0xffff888000000000` with one entry each. -/
def directMap (pmd : BitVec 64) : Memory :=
  setPte (setPte (setPte (setPte (fun _ => 0) 0x1888 0x2063#64) 0x2000 0x3063#64) 0x3000 pmd) 0x200000
    0x4c457f#64

/-- The 2 MB page at `0x200000` is taken for a table, and its first word for the entry. -/
theorem large_page_followed :
    getPte4 (x86 false) 0x1000 (directMap 0x2000e3#64) 0xffff888000000000#64 = some 0x200000 ∧
      mmuWalk 0x1000 (directMap 0x2000e3#64) 0xffff888000000000#64 false = some (0x3000, 1) ∧
      getPte4 (x86 false) 0x1000 (directMap 0x2000e3#64) 0xffff888000000000#64 ≠
        mmuPte 0x1000 (directMap 0x2000e3#64) 0xffff888000000000#64 false := by
  decide

/-- The same tables without the large page. -/
theorem page_walk_sample :
    getPte4 (x86 false) 0x1000 (directMap 0x200063#64) 0xffff888000000000#64 =
      mmuPte 0x1000 (directMap 0x200063#64) 0xffff888000000000#64 false := by
  refine (page_walk_iff (x86 false) (x86_sound false) 0x1000 _ _).1.mpr ?_
  decide

/-! ## `get_pte` -/

/-- The page tables of `current` with the number of levels they have. -/
structure Paging where
  h : Pgtable
  mm : Nat
  la57 : Bool

-- `get_pte`
def Paging.getPte (p : Paging) (memory : Memory) (vaddr : BitVec 64) : Option Nat :=
  if p.la57 then getPte5 p.h p.mm memory vaddr else getPte4 p.h p.mm memory vaddr

/-- A kernel whose page walk is the one through these tables. -/
def Paging.kernel (p : Paging) (k : Kernel) : Kernel := { k with getPte := p.getPte }

/-- The levels the walk goes through, above the last one. -/
def Paging.levels (p : Paging) : List (Level (BitVec 64) (BitVec 64)) :=
  if p.la57 then driver5 p.h else driver4 p.h

/-- The entries of tables on the way to the entry of an address. -/
def Paging.tableSlots (p : Paging) (memory : Memory) (vaddr : BitVec 64) : List Nat :=
  Level.way (pteVal memory) vaddr p.levels p.mm

/-- Their bytes. -/
def Paging.tableWords (p : Paging) (memory : Memory) (vaddr : BitVec 64) : Set Nat :=
  {a | ∃ slot ∈ p.tableSlots memory vaddr, slot ≤ a ∧ a < slot + 8}

/-- As long as these bytes are as they are in `memory`, the walk finds the entry of `paged_buf`,
    whatever present entry is there. -/
structure Kernel.Leads (k : Kernel) (words : Set Nat) (memory : Memory) : Prop where
  apart : ∀ a ∈ words, a < k.pagedPte ∨ k.pagedPte + 8 ≤ a
  there : present (pteVal memory k.pagedPte)
  finds : ∀ other, (∀ a ∈ words, other a = memory a) → present (pteVal other k.pagedPte) → k.Finds other

section

variable {p : Paging} {memory other : Memory} {vaddr : BitVec 64} {pte : Nat}

theorem Paging.getPte_eq_walk : p.getPte memory vaddr =
    Level.lowest (Level.walk (pteVal memory) vaddr (driverLast p.h) p.levels p.mm) := by
  rw [getPte, levels]
  split
  · exact getPte5_eq_walk
  · exact getPte4_eq_walk

/-- With the tables on the way as they were, and an entry that is not empty where it was, the walk
    finds it again. -/
theorem Paging.getPte_congr (found : p.getPte memory vaddr = some pte)
    (same : ∀ slot ∈ p.tableSlots memory vaddr, pteVal other slot = pteVal memory slot)
    (there : p.h.pteNone (pteVal other pte) = false) : p.getPte other vaddr = some pte := by
  rw [getPte_eq_walk] at found ⊢
  exact Level.lowest_walk_congr found same there

/-- The tables on the way lead to the entry, if none of them holds it. -/
theorem Paging.leads {host : Kernel} (found : (p.kernel host).Finds memory)
    (present_some : ∀ entry, present entry → p.h.pteNone entry = false)
    (there : present (pteVal memory host.pagedPte))
    (apart : ∀ slot ∈ p.tableSlots memory host.pagedBuf,
      slot + 8 ≤ host.pagedPte ∨ host.pagedPte + 8 ≤ slot) :
    (p.kernel host).Leads (p.tableWords memory host.pagedBuf) memory where
  apart := by
    rintro a ⟨slot, member, low, high⟩
    have away := apart slot member
    change a < host.pagedPte ∨ host.pagedPte + 8 ≤ a
    omega
  there := there
  finds other same still := by
    refine Paging.getPte_congr found (fun slot member => ?_) (present_some _ still)
    exact pteVal_congr fun a low high => same a ⟨slot, member, low, high⟩

end

/-! ## A kernel to evaluate on -/

def samplePaging : Paging where
  h := x86 false
  mm := 0x4000
  la57 := false

def sampleKernel : Kernel where
  pagedBuf := 0xffffffffc0a00000#64
  pagedPte := 0x1000
  aligned := rfl
  getPte := samplePaging.getPte
  virtToPhys addr := addr - 0xffffffff80000000#64

/-- The buffer of `kmem` is in the page behind the one of `pmem`. -/
def sampleKmem : Kernel :=
  { sampleKernel with pagedBuf := 0xffffffffc0a01000#64, pagedPte := 0x1008, aligned := rfl }

/-- Memory at rest: the two buffers lie in the frames `0x12345` and `0x12346`, writable and not
    executable. -/
def sampleMemory : Memory :=
  setPte (setPte (setPte (setPte (setPte (fun _ => 0) 0x4ff8 0x3063#64) 0x3ff8 0x2063#64) 0x2028 0x1063#64)
    0x1008 0x8000000012346163#64) 0x1000 0x8000000012345163#64

theorem sampleKernel_leads :
    sampleKernel.Leads (samplePaging.tableWords sampleMemory sampleKernel.pagedBuf) sampleMemory := by
  have found : (samplePaging.kernel sampleKernel).Finds sampleMemory := by decide
  refine Paging.leads found (fun entry there => ?_) (by decide) (by decide)
  refine decide_eq_false fun none => ?_
  have bit := congrArg (·.getLsbD 0) none
  simp [present] at there
  simp [there] at bit

theorem sampleWords_low {a : Nat}
    (word : a ∈ samplePaging.tableWords sampleMemory sampleKernel.pagedBuf) : 0x1000 ≤ a ∧ a < 0x5000 := by
  have slots : ∀ slot ∈ samplePaging.tableSlots sampleMemory sampleKernel.pagedBuf,
      0x1000 ≤ slot ∧ slot + 8 ≤ 0x5000 := by decide
  obtain ⟨slot, member, low, high⟩ := word
  have bounds := slots slot member
  omega

/-- A memory with these tables, whatever it has elsewhere. -/
theorem sampleKernel_finds {memory : Memory}
    (same : ∀ a, 0x1000 ≤ a → a < 0x5000 → memory a = sampleMemory a) : sampleKernel.Finds memory := by
  refine sampleKernel_leads.finds memory (fun a word => ?_) ?_
  · obtain ⟨low, high⟩ := sampleWords_low word
    exact same a low high
  · have entry : pteVal memory 0x1000 = pteVal sampleMemory 0x1000 :=
      pteVal_congr fun a low high => same a low (by omega)
    rw [show sampleKernel.pagedPte = 0x1000 from rfl, entry]
    decide

theorem sampleMemory_finds : sampleKernel.Finds sampleMemory := sampleKernel_finds fun _ _ _ => rfl

end TestPrograms.Devmem
