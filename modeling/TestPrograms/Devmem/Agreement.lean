import TestPrograms.Devmem.KmemSeek
import TestPrograms.Devmem.PmemRoundTrip

/-! # `kmem` and `pmem` on the same page

A virtual address reaches its page through a page walk or, in the kernel image, through
`virt_to_phys`; a physical position names it.  Attribute bits of the target's entry go
into the window along with the frame, but only the frame says where the window is.
-/

namespace TestPrograms.Devmem

open TestPrograms.Foundations
open TestPrograms.Foundations.Memory
open TestPrograms.Linux

/-- The byte at `v` is in frame `f`: by the entry found for it, with any attributes, or, for
    the kernel image, by the linear translation. -/
def Backs (k : Kernel) (memory : Memory) (v : BitVec 64) (f : Nat) : Prop :=
  if v < 0xffffffff80000000#64 ∨ 0xffffffffc0000000#64 ≤ v then
    ∃ pte, k.getPte memory v = some pte ∧ frame (pteVal memory pte) = f
  else (k.virtToPhys v).toNat = 4096 * f + v.toNat % 4096

theorem frame_and_pageMask (entry : BitVec 64) : frame (entry &&& pageMask) = frame entry := by
  have masked : windowEntry entry 0#64 = entry &&& pageMask := by
    simp [windowEntry, pageMask]
  rw [← masked, frame_windowEntry]

theorem kmemPhyAddr_backs {k : Kernel} {memory : Memory} {v : BitVec 64} {f : Nat} (wide : f < 2 ^ 40)
    (backs : Backs k memory v f) :
    ∃ phyAddr, kmemPhyAddr k memory v = .ok phyAddr ∧ frame phyAddr = f := by
  unfold Backs at backs
  split at backs
  · rename_i outside
    obtain ⟨pte, found, entry⟩ := backs
    refine ⟨pteVal memory pte &&& pageMask, ?_, by rw [frame_and_pageMask, entry]⟩
    cases outside with
    | inl low => simp only [kmemPhyAddr, found, low, if_true]
    | inr high =>
      have above : ¬ v < 0xffffffffc0000000#64 := BitVec.not_lt.mpr high
      simp only [kmemPhyAddr, found, above, if_false, ite_self]
  · rename_i inside
    obtain ⟨notLow, notHigh⟩ := not_or.mp inside
    refine ⟨k.virtToPhys v, ?_, ?_⟩
    · simp only [kmemPhyAddr, notLow, BitVec.not_le.mp notHigh, if_false, if_true]
    · rw [frame_of_lt (by omega), backs]
      omega

/-- Bytes of a page that does not hold the entry of `paged_buf` are read as they are in
    memory. -/
theorem loadBytes_installed {k : Kernel} {memory : Memory} {entry : BitVec 64} {f offset count : Nat}
    (spared : f ≠ k.pagedPte / 4096) (inPage : offset + count ≤ 4096) :
    loadBytes (setPte memory k.pagedPte entry) (f * 4096 + offset) count =
      loadBytes memory (f * 4096 + offset) count := by
  have aligned := k.aligned
  exact loadBytes_congr fun a _ _ => setPte_frame _ _ _ _ (by omega)

/-- The address of `v` in frame `f`. -/
def positionIn (f : Nat) (v : BitVec 64) : BitVec 64 := BitVec.ofNat 64 (4096 * f + v.toNat % 4096)

theorem positionIn_toNat {f : Nat} (wide : f < 2 ^ 40) (v : BitVec 64) :
    (positionIn f v).toNat = 4096 * f + v.toNat % 4096 := by
  rw [positionIn, BitVec.toNat_ofNat]
  omega

theorem copyLen_positionIn {f : Nat} (wide : f < 2 ^ 40) (v : BitVec 64) (count : Nat) :
    copyLen (positionOf v) count = copyLen (positionIn f v) count := by
  rw [copyLen_eq, copyLen_eq, toNat_positionOf, positionIn_toNat wide]
  congr 2
  omega

theorem toNat_positionOf_and_lowMask (v : BitVec 64) :
    (positionOf v &&& 0xfff#64).toNat = v.toNat % 4096 := by
  rw [toNat_and_lowMask, toNat_positionOf]
  omega

/-- After a seek to a canonical address in frame `f` and to its physical position, the two
    devices write the same bytes to the same place and read the same bytes. -/
theorem kmem_agrees_with_pmem {km pm : Kernel} {memory : Memory} {v : BitVec 64} {f : Nat}
    (canonical : Canonical 48 v ∨ Canonical 57 v) (wide : f < 2 ^ 40) (backs : Backs km memory v f)
    (kmFound : km.Finds memory) (pmFound : pm.Finds memory)
    (kmSpared : f ≠ km.pagedPte / 4096) (pmSpared : f ≠ pm.pagedPte / 4096) (filp : File) :
    let kmFile := (kmemLlseek filp v .seekSet).1
    let pmFile := (pmemLlseek filp (positionIn f v) .seekSet).1
    (∀ data, kmemWrite km kmFile data none memory = .ok (pmemWrite pm pmFile data none memory)) ∧
      ∀ count, kmemRead km kmFile count none memory = .ok (pmemRead pm pmFile count none memory) := by
  intro kmFile pmFile
  have address : kmemAddr kmFile.fPos = v := kmemAddr_positionOf canonical
  obtain ⟨phyAddr, translates, shown⟩ := kmemPhyAddr_backs wide backs
  rw [← address] at translates
  have place : pmFile.fPos.toNat = f * 4096 + v.toNat % 4096 := by
    rw [show pmFile.fPos = positionIn f v from rfl, positionIn_toNat wide, Nat.mul_comm]
  have low : pmFile.fPos.toNat < 2 ^ 52 := by omega
  have offset : (kmFile.fPos &&& 0xfff#64).toNat = v.toNat % 4096 := toNat_positionOf_and_lowMask v
  have lengths : ∀ count, copyLen kmFile.fPos count = copyLen pmFile.fPos count :=
    copyLen_positionIn wide v
  have inPage : ∀ count, v.toNat % 4096 + copyLen pmFile.fPos count ≤ 4096 := by
    intro count
    rw [← lengths, ← offset]
    exact copyLen_inPage _ _
  constructor
  · intro data
    have bound := inPage data.length
    have entry : frame (writeEntry phyAddr (pteVal memory km.pagedPte)) = f := by
      rw [frame_writeEntry, shown]
    rw [kmemWrite_ok kmFound translates (not_faults_none _),
      pmemWrite_spec pmFound low data (by omega), lengths, offset,
      Kernel.store_restored km memory (entry.symm ▸ kmSpared), entry, place]
    rwa [length_take_copyLen]
  · intro count
    have bound := inPage count
    have entry : frame (windowEntry phyAddr (pteVal memory km.pagedPte)) = f := by
      rw [frame_windowEntry, shown]
    rw [kmemRead_ok kmFound translates (not_faults_none _), pmemRead_spec pmFound low,
      lengths, offset, Kernel.loadWindow, Kernel.windowAddr, pteVal_setPte, entry, place,
      loadBytes_installed kmSpared bound, loadBytes_installed pmSpared bound]

theorem kmem_agrees_with_pmem_sample :
    let kmFile := (kmemLlseek { fPos := 0 } 0xffffffff81000ffe#64 .seekSet).1
    let pmFile := (pmemLlseek { fPos := 0 } (positionIn 0x1000 0xffffffff81000ffe#64) .seekSet).1
    kmemWrite sampleKmem kmFile [1, 2, 3] none sampleMemory =
        .ok (pmemWrite sampleKernel pmFile [1, 2, 3] none sampleMemory) ∧
      kmemRead sampleKmem kmFile 3 none sampleMemory =
        .ok (pmemRead sampleKernel pmFile 3 none sampleMemory) := by
  intro kmFile pmFile
  have backs : Backs sampleKmem sampleMemory 0xffffffff81000ffe#64 0x1000 := by
    rw [Backs, if_neg (by decide)]
    decide
  obtain ⟨writes, reads⟩ := kmem_agrees_with_pmem (.inl (.inr (by decide))) (by decide) backs
    (by decide) sampleMemory_finds (by decide) (by decide) { fPos := 0 }
  exact ⟨writes _, reads _⟩

end TestPrograms.Devmem
