import TestPrograms.Devmem.PageWalk

/-! # `/dev/pmem`

`pmem_read`, `pmem_write` and `pmem_llseek`.  Neither transfer moves `f_pos`, and
neither uses `*ppos`.
-/

namespace TestPrograms.Devmem

open TestPrograms.Foundations
open TestPrograms.Foundations.Memory
open TestPrograms.Linux

/-- How a transfer ends: what it returns, what the user buffer got, and memory. -/
structure Transfer where
  ret : Except Errno Nat
  user : List Byte
  memory : Memory

def pmemRead (k : Kernel) (filp : File) (count : Nat) (fault : Option Nat) (memory : Memory) :
    Transfer :=
  let copyLen := copyLen filp.fPos count
  let pte := k.getPte memory k.pagedBuf
  let installed := match pte with
    | some pte => setPte memory pte (windowEntry filp.fPos (pteVal memory pte))
    | none => memory
  let (left, user) := k.copyToUser installed (filp.fPos &&& 0xfff#64).toNat copyLen fault
  -- the early return leaves the entry as installed
  if left ≠ 0 then { ret := .error .EFAULT, user, memory := installed }
  else
    let restored := match pte with
      | some pte => setPte installed pte (pteVal memory pte)
      | none => installed
    { ret := .ok copyLen, user, memory := restored }

def pmemWrite (k : Kernel) (filp : File) (buf : List Byte) (fault : Option Nat) (memory : Memory) :
    Transfer :=
  let copyLen := copyLen filp.fPos buf.length
  let pte := k.getPte memory k.pagedBuf
  let installed := match pte with
    | some pte => setPte memory pte (windowEntry filp.fPos (pteVal memory pte) ||| pageRw)
    | none => memory
  -- the destination of the copy is the window itself
  let (left, placed) := copyFromUser buf copyLen fault
  let stored := k.storeWindow installed (filp.fPos &&& 0xfff#64).toNat placed
  if left ≠ 0 then { ret := .error .EFAULT, user := [], memory := stored }
  else
    let restored := match pte with
      | some pte => setPte stored pte (pteVal memory pte)
      | none => stored
    { ret := .ok copyLen, user := [], memory := restored }

def pmemLlseek (flip : File) (offset : BitVec 64) (whence : Whence) : File × BitVec 64 :=
  let fPos := match whence with
    | .seekSet => offset
    | .seekCur => flip.fPos + offset
    | .seekEnd => ~~~0#64 + offset
    | .other => flip.fPos
  ({ flip with fPos }, fPos)

def pmemCall (k : Kernel) (s : State) : Call → Except Oops State
  | .read fd count fault =>
    .ok { s with memory := (pmemRead k (s.file fd) count fault s.memory).memory }
  | .write fd buf fault =>
    .ok { s with memory := (pmemWrite k (s.file fd) buf fault s.memory).memory }
  | .llseek fd offset whence => .ok (s.seek fd (pmemLlseek (s.file fd) offset whence).1)

/-! ## What a call does when the entry of `paged_buf` is found -/

section

variable {k : Kernel} {memory : Memory}
  (found : k.getPte memory k.pagedBuf = some k.pagedPte)

include found

theorem pmemRead_fault {filp : File} {count : Nat} {fault : Option Nat}
    (faults : Faults fault (copyLen filp.fPos count)) :
    (pmemRead k filp count fault memory).memory =
      setPte memory k.pagedPte (windowEntry filp.fPos (pteVal memory k.pagedPte)) := by
  have left := faults.left
  simp only [pmemRead, found, Kernel.copyToUser, left, ne_eq, not_false_eq_true, if_true]

theorem pmemRead_ok {filp : File} {count : Nat} {fault : Option Nat}
    (faultless : ¬ Faults fault (copyLen filp.fPos count)) :
    pmemRead k filp count fault memory =
      { ret := .ok (copyLen filp.fPos count)
        user := k.loadWindow
          (setPte memory k.pagedPte (windowEntry filp.fPos (pteVal memory k.pagedPte)))
          (filp.fPos &&& 0xfff#64).toNat (copyLen filp.fPos count)
        memory := memory } := by
  have all := copied_of_not_faults faultless
  simp only [pmemRead, found, Kernel.copyToUser, all, Nat.sub_self, ne_eq, not_true_eq_false,
    if_false, setPte_setPte, setPte_pteVal]

def writeEntry (fPos save : BitVec 64) : BitVec 64 := windowEntry fPos save ||| pageRw

omit found in
@[simp] theorem frame_writeEntry (fPos save : BitVec 64) :
    frame (writeEntry fPos save) = frame fPos := by
  simp [writeEntry]

theorem pmemWrite_fault {filp : File} {buf : List Byte} {fault : Option Nat}
    (faults : Faults fault (copyLen filp.fPos buf.length)) :
    (pmemWrite k filp buf fault memory).memory =
      k.storeWindow (setPte memory k.pagedPte (writeEntry filp.fPos (pteVal memory k.pagedPte)))
        (filp.fPos &&& 0xfff#64).toNat (copyFromUser buf (copyLen filp.fPos buf.length) fault).2 := by
  have left := faults.left
  simp only [pmemWrite, found, copyFromUser, left, ne_eq, not_false_eq_true, if_true, writeEntry]

theorem pmemWrite_ok {filp : File} {buf : List Byte} {fault : Option Nat}
    (faultless : ¬ Faults fault (copyLen filp.fPos buf.length)) :
    pmemWrite k filp buf fault memory =
      { ret := .ok (copyLen filp.fPos buf.length)
        user := []
        memory := setPte
          (k.storeWindow (setPte memory k.pagedPte (writeEntry filp.fPos (pteVal memory k.pagedPte)))
            (filp.fPos &&& 0xfff#64).toNat (buf.take (copyLen filp.fPos buf.length)))
          k.pagedPte (pteVal memory k.pagedPte) } := by
  have all := copied_of_not_faults faultless
  simp only [pmemWrite, found, copyFromUser, all, Nat.sub_self, ne_eq, not_true_eq_false,
    if_false, List.replicate_zero, List.append_nil, writeEntry]

omit found in
/-- With `a` in a page that does not hold the entry, what a successful transfer through the
    window leaves behind is a store at `a`. -/
theorem store_at {memory : Memory} {entry : BitVec 64} {a offset : Nat} {bytes : List Byte}
    (place : frame entry * 4096 + offset = a) (inPage : offset + bytes.length ≤ 4096)
    (small : offset < 4096) (spared : a / 4096 ≠ k.pagedPte / 4096) :
    setPte (k.storeWindow (setPte memory k.pagedPte entry) offset bytes) k.pagedPte
      (pteVal memory k.pagedPte) = storeBytes memory a bytes := by
  rw [Kernel.store_restored k memory (by omega) inPage, place]

omit found in
theorem take_inPage (fPos : BitVec 64) (buf : List Byte) :
    fPos.toNat % 4096 + (buf.take (copyLen fPos buf.length)).length ≤ 4096 := by
  have inPage := copyLen_inPage fPos buf.length
  rw [toNat_and_lowMask] at inPage
  rwa [length_take_copyLen]

omit found in
/-- What both drivers leave of a write that succeeds. -/
theorem store_take_at {memory : Memory} {address fPos : BitVec 64} {buf : List Byte}
    (spared : (frame address * 4096 + fPos.toNat % 4096) / 4096 ≠ k.pagedPte / 4096) :
    setPte
        (k.storeWindow (setPte memory k.pagedPte (writeEntry address (pteVal memory k.pagedPte)))
          (fPos &&& 0xfff#64).toNat (buf.take (copyLen fPos buf.length)))
        k.pagedPte (pteVal memory k.pagedPte) =
      storeBytes memory (frame address * 4096 + fPos.toNat % 4096)
        (buf.take (copyLen fPos buf.length)) := by
  rw [toNat_and_lowMask]
  exact store_at (by rw [frame_writeEntry]) (take_inPage _ _) (Nat.mod_lt _ (by decide)) spared

theorem pmemWrite_stored {filp : File} {buf : List Byte} {fault : Option Nat}
    (faultless : ¬ Faults fault (copyLen filp.fPos buf.length))
    (spared : frame filp.fPos ≠ k.pagedPte / 4096) :
    (pmemWrite k filp buf fault memory).memory =
      storeBytes memory (frame filp.fPos * 4096 + filp.fPos.toNat % 4096)
        (buf.take (copyLen filp.fPos buf.length)) := by
  rw [pmemWrite_ok found faultless]
  exact store_take_at (by omega)

end

/-! ## Calls whose copy to or from the user succeeds -/

inductive PmemCall where
  | read (filp : File) (count : Nat)
  | write (filp : File) (buf : List Byte)

def PmemCall.filp : PmemCall → File
  | .read filp _ | .write filp _ => filp

def PmemCall.count : PmemCall → Nat
  | .read _ count => count
  | .write _ buf => buf.length

def PmemCall.writes : PmemCall → Bool
  | .read .. => false
  | .write .. => true

/-- The frame that the call is for. -/
def PmemCall.frame (call : PmemCall) : Nat := Devmem.frame call.filp.fPos

/-- The first byte of the call's transfer. -/
def PmemCall.start (call : PmemCall) : Nat := call.frame * 4096 + call.filp.fPos.toNat % 4096

/-- The transfer does not touch the entry of `paged_buf`. -/
def PmemCall.Spares (k : Kernel) (call : PmemCall) : Prop :=
  call.start + copyLen call.filp.fPos call.count ≤ k.pagedPte ∨ k.pagedPte + 8 ≤ call.start

instance (k : Kernel) (call : PmemCall) : Decidable (call.Spares k) :=
  inferInstanceAs (Decidable (_ ∨ _))

theorem PmemCall.Spares.kept {k : Kernel} {filp : File} {buf : List Byte} {memory : Memory}
    (spares : (PmemCall.write filp buf).Spares k)
    (shown : Devmem.frame (pteVal memory k.pagedPte) = Devmem.frame filp.fPos) :
    pteVal (k.storeWindow memory (filp.fPos &&& 0xfff#64).toNat
      (buf.take (copyLen filp.fPos buf.length))) k.pagedPte = pteVal memory k.pagedPte := by
  apply k.pteVal_storeWindow_apart
  rw [length_take_copyLen, Kernel.windowAddr, shown, toNat_and_lowMask]
  exact spares

/-- The call moves at least one byte. -/
def PmemCall.Moves (call : PmemCall) : Prop := 0 < copyLen call.filp.fPos call.count

def callPlain (k : Kernel) (memory : Memory) : PmemCall → Transfer
  | .read filp count => pmemRead k filp count none memory
  | .write filp buf => pmemWrite k filp buf none memory

def plainStep (k : Kernel) (memory : Memory) (call : PmemCall) : Except Oops Memory :=
  .ok (callPlain k memory call).memory

end TestPrograms.Devmem
