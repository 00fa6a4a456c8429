import TestPrograms.Devmem.Pmem

/-! # `/dev/kmem`

`kmem_read`, `kmem_write` and `kmem_llseek`.  The position is a virtual address with
its top nibble cut off; the page behind it is found by the page walk or, for the
kernel image, by `virt_to_phys`.
-/

namespace TestPrograms.Devmem

open TestPrograms.Foundations
open TestPrograms.Linux

/-- `addr`, rebuilt from the 60 bits that `kmem_llseek` keeps. -/
def kmemAddr (fPos : BitVec 64) : BitVec 64 :=
  if fPos &&& 0x0f00000000000000#64 ≠ 0 then fPos ||| 0xf000000000000000#64 else fPos

-- `PAGE_MASK`
def pageMask : BitVec 64 := ~~~0xfff#64

theorem toNat_and_pageMask (v : BitVec 64) : (v &&& pageMask).toNat = v.toNat / 4096 * 4096 := by
  have shifted : v &&& pageMask = (v >>> 12) <<< 12 := by
    apply BitVec.eq_of_getLsbD_eq
    intro i bound
    simp only [pageMask, BitVec.getLsbD_and, BitVec.getLsbD_not, lowMask_getLsbD,
      BitVec.getLsbD_shiftLeft, BitVec.getLsbD_ushiftRight, bound, decide_true, Bool.true_and]
    by_cases low : i < 12
    · simp [low]
    · rw [show 12 + (i - 12) = i by omega]
      simp [low]
  have top := v.isLt
  rw [shifted, BitVec.toNat_shiftLeft, BitVec.toNat_ushiftRight, Nat.shiftRight_eq_div_pow,
    Nat.shiftLeft_eq]
  omega

/-- `phy_addr`.  The entry that `get_pte` finds is dereferenced without a test. -/
def kmemPhyAddr (k : Kernel) (memory : Memory) (addr : BitVec 64) : Except Oops (BitVec 64) :=
  let walked := match k.getPte memory addr with
    | some pte => .ok (pteVal memory pte &&& pageMask)
    | none => .error .nullPte
  if addr < 0xffffffff80000000#64 then walked
  else if addr < 0xffffffffc0000000#64 then .ok (k.virtToPhys addr)
  else walked

def kmemRead (k : Kernel) (filp : File) (count : Nat) (fault : Option Nat) (memory : Memory) :
    Except Oops Transfer :=
  let copyLen := copyLen filp.fPos count
  match kmemPhyAddr k memory (kmemAddr filp.fPos) with
  | .error oops => .error oops
  | .ok phyAddr =>
    let pte := k.getPte memory k.pagedBuf
    let installed := match pte with
      | some pte => setPte memory pte (windowEntry phyAddr (pteVal memory pte))
      | none => memory
    let (left, user) := k.copyToUser installed (filp.fPos &&& 0xfff#64).toNat copyLen fault
    if left ≠ 0 then .ok { ret := .error .EFAULT, user, memory := installed }
    else
      let restored := match pte with
        | some pte => setPte installed pte (pteVal memory pte)
        | none => installed
      .ok { ret := .ok copyLen, user, memory := restored }

def kmemWrite (k : Kernel) (filp : File) (buf : List Byte) (fault : Option Nat) (memory : Memory) :
    Except Oops Transfer :=
  let copyLen := copyLen filp.fPos buf.length
  match kmemPhyAddr k memory (kmemAddr filp.fPos) with
  | .error oops => .error oops
  | .ok phyAddr =>
    let pte := k.getPte memory k.pagedBuf
    let installed := match pte with
      | some pte => setPte memory pte (windowEntry phyAddr (pteVal memory pte) ||| pageRw)
      | none => memory
    -- the user copy goes to `tbuf`, so a fault is seen before memory is written
    let (left, tbuf) := copyFromUser buf copyLen fault
    if left ≠ 0 then .ok { ret := .error .EFAULT, user := [], memory := installed }
    else
      let stored := k.storeWindow installed (filp.fPos &&& 0xfff#64).toNat tbuf
      let restored := match pte with
        | some pte => setPte stored pte (pteVal memory pte)
        | none => stored
      .ok { ret := .ok copyLen, user := [], memory := restored }

def kmemLlseek (flip : File) (offset : BitVec 64) (whence : Whence) : File × BitVec 64 :=
  let fPos := match whence with
    | .seekSet => offset
    | .seekCur => flip.fPos + offset
    | .seekEnd => ~~~0#64 + offset
    | .other => flip.fPos
  let fPos := fPos &&& 0x0fffffffffffffff#64
  ({ flip with fPos }, fPos)

def kmemCall (k : Kernel) (s : State) : Call → Except Oops State
  | .read fd count fault =>
    (kmemRead k (s.file fd) count fault s.memory).map fun done => { s with memory := done.memory }
  | .write fd buf fault =>
    (kmemWrite k (s.file fd) buf fault s.memory).map fun done => { s with memory := done.memory }
  | .llseek fd offset whence => .ok (s.seek fd (kmemLlseek (s.file fd) offset whence).1)

/-! ## What a call does when both entries are found -/

section

variable {k : Kernel} {memory : Memory} {filp : File} {phyAddr : BitVec 64}
  (found : k.getPte memory k.pagedBuf = some k.pagedPte)
  (target : kmemPhyAddr k memory (kmemAddr filp.fPos) = .ok phyAddr)

include found target

theorem kmemRead_fault {count : Nat} {fault : Option Nat}
    (faults : Faults fault (copyLen filp.fPos count)) :
    ∃ user, kmemRead k filp count fault memory =
      .ok { ret := .error .EFAULT
            user := user
            memory := setPte memory k.pagedPte
              (windowEntry phyAddr (pteVal memory k.pagedPte)) } := by
  have left := faults.left
  simp only [kmemRead, target, found, Kernel.copyToUser, left, ne_eq, not_false_eq_true, if_true]
  exact ⟨_, rfl⟩

theorem kmemRead_ok {count : Nat} {fault : Option Nat}
    (faultless : ¬ Faults fault (copyLen filp.fPos count)) :
    kmemRead k filp count fault memory =
      .ok { ret := .ok (copyLen filp.fPos count)
            user := k.loadWindow
              (setPte memory k.pagedPte (windowEntry phyAddr (pteVal memory k.pagedPte)))
              (filp.fPos &&& 0xfff#64).toNat (copyLen filp.fPos count)
            memory := memory } := by
  have all := copied_of_not_faults faultless
  simp only [kmemRead, target, found, Kernel.copyToUser, all, Nat.sub_self, ne_eq,
    not_true_eq_false, if_false, setPte_setPte, setPte_pteVal]

theorem kmemWrite_fault {buf : List Byte} {fault : Option Nat}
    (faults : Faults fault (copyLen filp.fPos buf.length)) :
    kmemWrite k filp buf fault memory =
      .ok { ret := .error .EFAULT
            user := []
            memory := setPte memory k.pagedPte
              (writeEntry phyAddr (pteVal memory k.pagedPte)) } := by
  have left := faults.left
  simp only [kmemWrite, target, found, copyFromUser, left, ne_eq, not_false_eq_true, if_true,
    writeEntry]

theorem kmemWrite_ok {buf : List Byte} {fault : Option Nat}
    (faultless : ¬ Faults fault (copyLen filp.fPos buf.length)) :
    kmemWrite k filp buf fault memory =
      .ok { ret := .ok (copyLen filp.fPos buf.length)
            user := []
            memory := setPte
              (k.storeWindow (setPte memory k.pagedPte (writeEntry phyAddr (pteVal memory k.pagedPte)))
                (filp.fPos &&& 0xfff#64).toNat (buf.take (copyLen filp.fPos buf.length)))
              k.pagedPte (pteVal memory k.pagedPte) } := by
  have all := copied_of_not_faults faultless
  simp only [kmemWrite, target, found, copyFromUser, all, Nat.sub_self, ne_eq, not_true_eq_false,
    if_false, List.replicate_zero, List.append_nil, writeEntry]

end

end TestPrograms.Devmem
