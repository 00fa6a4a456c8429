import TestPrograms.Devmem.FailedWrite

/-! # The attributes of the window's entry

An entry has attributes on both sides of its frame field.  The mask `0xfff` takes those below
from the saved entry; those above come from `f_pos`.
-/

namespace TestPrograms.Devmem

open TestPrograms.Foundations
open TestPrograms.Linux

def InFrame (i : Nat) : Prop := 12 ≤ i ∧ i < 52

/-- Only bits of the field differ. -/
def DiffersOnlyIn (field : Nat → Prop) (save entry : BitVec 64) : Prop :=
  ∀ i < 64, entry.getLsbD i ≠ save.getLsbD i → field i

/-- The attributes above the frame, bits 52 to 63 with no-execute the last. -/
def upperAttributes (entry : BitVec 64) : BitVec 12 := entry.extractLsb' 52 12

/-! ## The entry a call installs -/

/-- `pmem_read` with `entry` at `pte` while the user's bytes are read. -/
def pmemReadThrough (k : Kernel) (pte : Nat) (entry : BitVec 64) (filp : File) (count : Nat)
    (fault : Option Nat) (memory : Memory) : Transfer :=
  let copyLen := copyLen filp.fPos count
  let installed := setPte memory pte entry
  let (left, user) := k.copyToUser installed (filp.fPos &&& 0xfff#64).toNat copyLen fault
  if left ≠ 0 then { ret := .error .EFAULT, user, memory := installed }
  else { ret := .ok copyLen, user, memory := setPte installed pte (pteVal memory pte) }

def pmemWriteThrough (k : Kernel) (pte : Nat) (entry : BitVec 64) (filp : File) (buf : List Byte)
    (fault : Option Nat) (memory : Memory) : Transfer :=
  let copyLen := copyLen filp.fPos buf.length
  let (left, placed) := copyFromUser buf copyLen fault
  let stored := k.storeWindow (setPte memory pte entry) (filp.fPos &&& 0xfff#64).toNat placed
  if left ≠ 0 then { ret := .error .EFAULT, user := [], memory := stored }
  else { ret := .ok copyLen, user := [], memory := setPte stored pte (pteVal memory pte) }

section

variable {k : Kernel} {memory : Memory} {pte : Nat}
  (found : k.getPte memory k.pagedBuf = some pte)

include found

theorem pmemRead_through (filp : File) (count : Nat) (fault : Option Nat) :
    pmemRead k filp count fault memory =
      pmemReadThrough k pte (windowEntry filp.fPos (pteVal memory pte)) filp count fault memory := by
  simp only [pmemRead, found, pmemReadThrough]

theorem pmemWrite_through (filp : File) (buf : List Byte) (fault : Option Nat) :
    pmemWrite k filp buf fault memory =
      pmemWriteThrough k pte (writeEntry filp.fPos (pteVal memory pte)) filp buf fault memory := by
  simp only [pmemWrite, found, pmemWriteThrough, writeEntry]

end

/-! ## Bit by bit -/

section

variable {fPos save : BitVec 64} {i : Nat}

theorem windowEntry_getLsbD (inEntry : i < 64) :
    (windowEntry fPos save).getLsbD i = if i < 12 then save.getLsbD i else fPos.getLsbD i := by
  simp only [windowEntry, BitVec.getLsbD_or, BitVec.getLsbD_and, BitVec.getLsbD_not, lowMask_getLsbD]
  by_cases low : i < 12 <;> simp [low, inEntry]

theorem pageRw_getLsbD (i : Nat) : pageRw.getLsbD i = decide (i = 1) := by
  have power : pageRw = BitVec.twoPow 64 1 := rfl
  rw [power, BitVec.getLsbD_twoPow]
  by_cases one : i = 1
  · simp [one]
  · simp [one, Ne.symm one]

theorem writeEntry_getLsbD :
    (writeEntry fPos save).getLsbD i = ((windowEntry fPos save).getLsbD i || decide (i = 1)) := by
  rw [writeEntry, BitVec.getLsbD_or, pageRw_getLsbD]

theorem upperAttributes_eq_iff :
    upperAttributes fPos = upperAttributes save ↔
      ∀ i < 64, 52 ≤ i → fPos.getLsbD i = save.getLsbD i := by
  constructor
  · intro same i inEntry above
    have bit := congrArg (·.getLsbD (i - 52)) same
    simpa [upperAttributes, BitVec.getLsbD_extractLsb', show i - 52 < 12 by omega,
      show 52 + (i - 52) = i by omega] using bit
  · intro same
    apply BitVec.eq_of_getLsbD_eq
    intro i bound
    simpa [upperAttributes, BitVec.getLsbD_extractLsb', bound] using same (52 + i) (by omega) (by omega)

theorem windowEntry_kept_iff :
    DiffersOnlyIn InFrame save (windowEntry fPos save) ↔ upperAttributes fPos = upperAttributes save := by
  rw [upperAttributes_eq_iff]
  constructor
  · intro only i inEntry above
    by_contra differs
    have inFrame := only i inEntry (by rwa [windowEntry_getLsbD inEntry, if_neg (by omega)])
    exact absurd inFrame.2 (by omega)
  · intro same i inEntry differs
    rw [windowEntry_getLsbD inEntry] at differs
    by_contra outside
    unfold InFrame at outside
    by_cases low : i < 12
    · simp [low] at differs
    · rw [if_neg low] at differs
      exact differs (same i inEntry (by omega))

theorem writeEntry_kept_iff :
    DiffersOnlyIn (fun i => InFrame i ∨ i = 1) save (writeEntry fPos save) ↔
      DiffersOnlyIn InFrame save (windowEntry fPos save) := by
  constructor
  · intro only i inEntry differs
    by_cases rw : i = 1
    · -- a low bit is the saved one
      rw [windowEntry_getLsbD inEntry, if_pos (by omega)] at differs
      exact absurd rfl differs
    · refine (only i inEntry ?_).resolve_right rw
      simpa [writeEntry_getLsbD, rw] using differs
  · intro only i inEntry differs
    by_cases rw : i = 1
    · exact .inr rw
    · exact .inl (only i inEntry (by simpa [writeEntry_getLsbD, rw] using differs))

end

/-! ## Every saved entry and position -/

/-- What `pmem_read` and `pmem_write` install differs from the saved entry only where it should
    exactly if `f_pos` has the upper attributes of the saved entry. -/
theorem window_attributes_kept_iff (k : Kernel) (filp : File) (memory : Memory) (pte : Nat)
    (found : k.getPte memory k.pagedBuf = some pte) :
    let save := pteVal memory pte
    ((∀ count fault, pmemRead k filp count fault memory =
        pmemReadThrough k pte (windowEntry filp.fPos save) filp count fault memory) ∧
      (DiffersOnlyIn InFrame save (windowEntry filp.fPos save) ↔
        upperAttributes filp.fPos = upperAttributes save)) ∧
    (∀ buf fault, pmemWrite k filp buf fault memory =
        pmemWriteThrough k pte (writeEntry filp.fPos save) filp buf fault memory) ∧
      (DiffersOnlyIn (fun i => InFrame i ∨ i = 1) save (writeEntry filp.fPos save) ↔
        upperAttributes filp.fPos = upperAttributes save) := by
  intro save
  refine ⟨⟨pmemRead_through found filp, windowEntry_kept_iff⟩, pmemWrite_through found filp, ?_⟩
  rw [writeEntry_kept_iff, windowEntry_kept_iff]

theorem window_attributes_sample :
    upperAttributes (pteVal sampleMemory 0x1000) ≠ upperAttributes 0x5000#64 ∧
      ¬ DiffersOnlyIn InFrame (pteVal sampleMemory 0x1000)
        (windowEntry 0x5000#64 (pteVal sampleMemory 0x1000)) := by
  have lost : upperAttributes 0x5000#64 ≠ upperAttributes (pteVal sampleMemory 0x1000) := by decide
  have kept := (window_attributes_kept_iff sampleKernel { fPos := 0x5000#64 } sampleMemory 0x1000 rfl).1.2
  exact ⟨lost.symm, fun only => lost (kept.mp only)⟩

/-- A read that faults at its first byte shows what was installed: no-execute is gone. -/
theorem window_loses_noexec :
    let installed := (pmemRead sampleKernel { fPos := 0x5000#64 } 1 (some 0) sampleMemory).memory
    (pteVal sampleMemory 0x1000).getLsbD 63 = true ∧ (pteVal installed 0x1000).getLsbD 63 = false ∧
      ¬ DiffersOnlyIn InFrame (pteVal sampleMemory 0x1000) (pteVal installed 0x1000) := by
  intro installed
  have saved : (pteVal sampleMemory 0x1000).getLsbD 63 = true := by decide
  have lost : (pteVal installed 0x1000).getLsbD 63 = false := by decide
  refine ⟨saved, lost, fun only => ?_⟩
  have inFrame := only 63 (by decide) (by rw [saved, lost]; decide)
  exact absurd inFrame.2 (by decide)

end TestPrograms.Devmem
