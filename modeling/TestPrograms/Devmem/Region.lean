import TestPrograms.Devmem.Agreement
import TestPrograms.Devmem.DeviceFile

/-! # Regions of kernel memory

A page walk reads page tables from the very memory that the devices write.  A region is mapped when
the frames behind its addresses stay what they are whatever is stored in them.
-/

namespace TestPrograms.Devmem

open TestPrograms.Foundations

/-- Physical memory outside the frames of a region is as it was. -/
def Agrees (region : Set (BitVec 64)) (frames : BitVec 64 → Nat) (memory other : Memory) : Prop :=
  ∀ a, (∀ v ∈ region, a / 4096 ≠ frames v) → other a = memory a

/-- The frames that are behind the addresses of a region, whatever is stored in them; nor does it
    keep the walk from the entry of `paged_buf`. -/
structure Mapped (k : Kernel) (memory : Memory) (region : Set (BitVec 64))
    (frames : BitVec 64 → Nat) : Prop where
  canonical : ∀ v ∈ region, Canonical 48 v ∨ Canonical 57 v
  wide : ∀ v ∈ region, frames v < 2 ^ 40
  spared : ∀ v ∈ region, frames v ≠ k.pagedPte / 4096
  found : ∀ other, Agrees region frames memory other → k.Finds other
  backed : ∀ other, Agrees region frames memory other → ∀ v ∈ region, Backs k other v (frames v)

/-- The physical address behind a virtual one. -/
def physical (frames : BitVec 64 → Nat) (v : BitVec 64) : Nat := frames v * 4096 + v.toNat % 4096

theorem Agrees.update {region : Set (BitVec 64)} {frames : BitVec 64 → Nat} {memory other : Memory}
    (agrees : Agrees region frames memory other) {v : BitVec 64} (inside : v ∈ region) (byte : Byte) :
    Agrees region frames memory (Function.update other (physical frames v) byte) := by
  intro a apart
  have away : a ≠ physical frames v := by
    rintro rfl
    refine apart v inside ?_
    rw [physical]
    omega
  rw [Function.update_of_ne away]
  exact agrees a apart

section

variable {k : Kernel} {region : Set (BitVec 64)} {frames : BitVec 64 → Nat} {memory : Memory}
  {admits : BitVec 64 → Bool}

theorem Mapped.phyAddr (mapped : Mapped k memory region frames) {other : Memory}
    (agrees : Agrees region frames memory other) {v : BitVec 64} (inside : v ∈ region) :
    ∃ phyAddr, Device.kmem.phyAddr k other (Device.kmem.position v) = .ok phyAddr ∧
      frame phyAddr = frames v := by
  have address : kmemAddr (positionOf v) = v := kmemAddr_positionOf (mapped.canonical v inside)
  rw [Device.phyAddr, Device.position, address]
  exact kmemPhyAddr_backs (mapped.wide v inside) (mapped.backed other agrees v inside)

theorem Mapped.spares (mapped : Mapped k memory region frames) {other : Memory}
    (agrees : Agrees region frames memory other) {v : BitVec 64} (inside : v ∈ region) :
    Device.kmem.Spares k other v := by
  obtain ⟨found, translates, behind⟩ := mapped.phyAddr agrees inside
  intro phyAddr same
  obtain rfl := Except.ok.inj (translates.symm.trans same)
  rw [behind]
  exact mapped.spared v inside

theorem Mapped.stored (mapped : Mapped k memory region frames) {other : Memory}
    (agrees : Agrees region frames memory other) {v : BitVec 64} (inside : v ∈ region)
    (admitted : admits (positionOf v)) (byte : Byte) :
    (Device.kmem.store k admits).stored other v byte =
      Function.update other (physical frames v) byte := by
  obtain ⟨phyAddr, translates, behind⟩ := mapped.phyAddr agrees inside
  have place : byteOf phyAddr (positionOf v) = physical frames v := by
    rw [byteOf, behind, physical, toNat_positionOf]
    omega
  have position : Device.kmem.position v = positionOf v := rfl
  rw [position] at translates
  simp only [Device.store, position, translates, admitted, place]

end

/-- A page of the kernel image, through the linear translation. -/
def sampleRegion : Set (BitVec 64) := fun v => 0xffffffff81000000 ≤ v.toNat ∧ v.toNat < 0xffffffff81001000

theorem sampleRegion_mapped {memory : Memory}
    (tables : ∀ a, 0x1000 ≤ a → a < 0x5000 → memory a = sampleMemory a) :
    Mapped sampleKernel memory sampleRegion fun _ => 0x1000 where
  canonical v inside := .inl (.inr (by
    have low := inside.1
    simp only [Nat.reduceSub, Nat.reducePow]
    omega))
  wide _ _ := by decide
  spared _ _ := by decide
  found other agrees := sampleKernel_finds fun a low high =>
    (agrees a fun _ _ => by dsimp only; omega).trans (tables a low high)
  backed other _ v inside := by
    have low := inside.1
    have high := inside.2
    have notLow : ¬ v < 0xffffffff80000000#64 := by
      rw [BitVec.lt_def, BitVec.toNat_ofNat]
      omega
    have notHigh : ¬ 0xffffffffc0000000#64 ≤ v := by
      rw [BitVec.le_def, BitVec.toNat_ofNat]
      omega
    rw [Backs, if_neg (not_or.mpr ⟨notLow, notHigh⟩)]
    simp only [sampleKernel, BitVec.toNat_sub, BitVec.toNat_ofNat]
    omega

end TestPrograms.Devmem
