import TestPrograms.Devmem.Agreement
import TestPrograms.Devmem.Mmap
import TestPrograms.Foundations.Runs

/-! # The position of a transfer

The kernel hands a transfer its position in `*ppos`: a copy of `f_pos` that it stores back
after a plain read or write, or the offset of a `pread` or `pwrite`.  Both drivers transfer
at `filp->f_pos` and leave `*ppos` alone, so only a seek moves an open device.
-/

namespace TestPrograms.Devmem

open TestPrograms.Foundations
open TestPrograms.Foundations.Memory
open TestPrograms.Linux

inductive Device where
  | pmem
  | kmem
  deriving DecidableEq, Repr

inductive Request where
  | read (count : Nat) (fault : Option Nat)
  | write (buf : List Byte) (fault : Option Nat)

def Request.count : Request → Nat
  | .read count _ => count
  | .write buf _ => buf.length

/-- The driver's `read` or `write`: it gets `*ppos` and returns it. -/
def Device.transfer (dev : Device) (k : Kernel) (request : Request) (filp : File) (ppos : BitVec 64)
    (memory : Memory) : Except Oops (Transfer × BitVec 64) :=
  match dev, request with
  | .pmem, .read count fault => .ok (pmemRead k filp count fault memory, ppos)
  | .pmem, .write buf fault => .ok (pmemWrite k filp buf fault memory, ppos)
  | .kmem, .read count fault => (kmemRead k filp count fault memory).map fun done => (done, ppos)
  | .kmem, .write buf fault => (kmemWrite k filp buf fault memory).map fun done => (done, ppos)

/-! ## The system calls -/

structure Opened where
  memory : Memory
  filp : File

inductive Access where
  | plain (request : Request)
  | explicit (offset : BitVec 64) (request : Request)

def Access.request : Access → Request
  | .plain request => request
  | .explicit _ request => request

/-- `read`, `write`, `pread` and `pwrite` as the kernel makes them of a driver's transfer. -/
def access (dev : Device) (k : Kernel) (s : Opened) : Access → Except Oops (Transfer × Opened)
  | .plain request =>
    (dev.transfer k request s.filp s.filp.fPos s.memory).map fun (done, pos) =>
      match done.ret with
      | .ok _ => (done, { memory := done.memory, filp := { s.filp with fPos := pos } })
      | .error _ => (done, { s with memory := done.memory })
  | .explicit offset request =>
    (dev.transfer k request s.filp offset s.memory).map fun (done, _) =>
      (done, { s with memory := done.memory })

/-- The physical address that `f_pos` stands for. -/
def Device.place (dev : Device) (k : Kernel) (filp : File) (memory : Memory) : Except Oops Nat :=
  match dev with
  | .pmem => .ok (frame filp.fPos * 4096 + filp.fPos.toNat % 4096)
  | .kmem => (kmemPhyAddr k memory (kmemAddr filp.fPos)).map fun phyAddr =>
      frame phyAddr * 4096 + filp.fPos.toNat % 4096

section

variable {k : Kernel} {memory : Memory} (found : k.Finds memory)

theorem transfer_ppos {dev : Device} {request : Request} {filp : File} {ppos after : BitVec 64}
    {done : Transfer}
    (transfers : dev.transfer k request filp ppos memory = .ok (done, after)) : after = ppos := by
  unfold Device.transfer at transfers
  split at transfers
  · cases transfers
    rfl
  · cases transfers
    rfl
  · cases read : kmemRead k filp _ _ memory <;> rw [read] at transfers <;> cases transfers
    rfl
  · cases write : kmemWrite k filp _ _ memory <;> rw [write] at transfers <;> cases transfers
    rfl

/-- A call gives the driver's transfer at `f_pos`, wherever it was told to, and leaves `f_pos`
    where it was. -/
theorem access_inv {dev : Device} {s next : Opened} {a : Access} {done : Transfer}
    (returns : access dev k s a = .ok (done, next)) :
    next = { memory := done.memory, filp := s.filp } ∧
      ∃ ppos, dev.transfer k a.request s.filp ppos s.memory = .ok (done, ppos) := by
  cases a with
  | plain request =>
    simp only [access] at returns
    cases transfers : dev.transfer k request s.filp s.filp.fPos s.memory with
    | error oops =>
      rw [transfers] at returns
      cases returns
    | ok result =>
      obtain ⟨transfer, pos⟩ := result
      have same : pos = s.filp.fPos := transfer_ppos transfers
      subst same
      rw [transfers] at returns
      simp only [Except.map] at returns
      split at returns <;> cases returns <;> exact ⟨rfl, _, transfers⟩
  | explicit offset request =>
    simp only [access] at returns
    cases transfers : dev.transfer k request s.filp offset s.memory with
    | error oops =>
      rw [transfers] at returns
      cases returns
    | ok result =>
      obtain ⟨transfer, pos⟩ := result
      have same : pos = offset := transfer_ppos transfers
      subst same
      rw [transfers] at returns
      cases returns
      exact ⟨rfl, _, transfers⟩

include found

end

/-! ## Runs of calls -/

/-- A device at `0x200000`, where the first byte is `0x11` and the next one zero. -/
def sampleOpened : Opened where
  memory := Function.update sampleMemory 0x200000 0x11#8
  filp := { fPos := 0x200000#64 }

theorem sampleOpened_finds : sampleKernel.Finds sampleOpened.memory :=
  sampleKernel_finds fun _ _ high => Function.update_of_ne (by omega) _ _

end TestPrograms.Devmem
