import TestPrograms.Devmem.Kmem
import TestPrograms.Foundations.Runs

/-! # The entry of `paged_buf` over runs of calls

Every transfer saves the entry it finds and installs another.  A transfer that
returns a length puts the saved entry back; one that returns `-EFAULT` does not, and
the next call then saves the wrong entry as the original.  The entry survives a run
exactly when every faulting transfer installs the entry that is already there.
-/

namespace TestPrograms.Devmem

open TestPrograms.Foundations
open TestPrograms.Linux

def Kernel.windowPte (k : Kernel) (s : State) : BitVec 64 := pteVal s.memory k.pagedPte

/-- When the call begins, the walk finds the entry. -/
def FindsEntry (k : Kernel) (s : State) (_ : Call) : Prop := k.Finds s.memory

/-- Once the call has returned, the entry is `initial`. -/
def Leaves (k : Kernel) (call : State → Call → Except Oops State) (initial : BitVec 64)
    (s : State) (c : Call) : Prop :=
  ∀ next, call s c = .ok next → k.windowPte next = initial

/-! ## When a call is harmless

The conditions are on the state before the call: its copy does not fault, or the
entry it installs is the one it finds. -/

/-- A faulting `pmem_write` stores through the window, so it must also not be aimed
    at the frame that holds the entry. -/
def PmemHarmless (k : Kernel) (s : State) : Call → Prop
  | .read fd count fault =>
    Faults fault (copyLen (s.file fd).fPos count) →
      windowEntry (s.file fd).fPos (k.windowPte s) = k.windowPte s
  | .write fd buf fault =>
    Faults fault (copyLen (s.file fd).fPos buf.length) →
      writeEntry (s.file fd).fPos (k.windowPte s) = k.windowPte s ∧
        frame (s.file fd).fPos ≠ k.pagedPte / 4096
  | .llseek .. => True

/-- `kmem_write` copies to a bounce buffer first, and its target is the page behind
    the address. -/
def KmemHarmless (k : Kernel) (s : State) : Call → Prop
  | .read fd count fault =>
    Faults fault (copyLen (s.file fd).fPos count) →
      ∀ phyAddr, kmemPhyAddr k s.memory (kmemAddr (s.file fd).fPos) = .ok phyAddr →
        windowEntry phyAddr (k.windowPte s) = k.windowPte s
  | .write fd buf fault =>
    Faults fault (copyLen (s.file fd).fPos buf.length) →
      ∀ phyAddr, kmemPhyAddr k s.memory (kmemAddr (s.file fd).fPos) = .ok phyAddr →
        writeEntry phyAddr (k.windowPte s) = k.windowPte s
  | .llseek .. => True

/-- No faulting write is aimed at the frame that holds the entry itself. -/
def SparesEntry (k : Kernel) (s : State) : Call → Prop
  | .write fd buf fault =>
    Faults fault (copyLen (s.file fd).fPos buf.length) →
      frame (s.file fd).fPos ≠ k.pagedPte / 4096
  | _ => True

/-! ## One call -/

section

variable {k : Kernel} {s : State} (found : k.Finds s.memory)

include found

theorem windowPte_pmemWrite_fault {fd : Nat} {buf : List Byte} {fault : Option Nat}
    (faults : Faults fault (copyLen (s.file fd).fPos buf.length))
    (spared : frame (s.file fd).fPos ≠ k.pagedPte / 4096) :
    pteVal (pmemWrite k (s.file fd) buf fault s.memory).memory k.pagedPte =
      writeEntry (s.file fd).fPos (k.windowPte s) := by
  rw [pmemWrite_fault found faults, Kernel.pteVal_storeWindow, pteVal_setPte]
  · rfl
  · simpa only [Kernel.Clear, pteVal_setPte, frame_writeEntry] using spared
  · rw [copyFromUser_length _ _ _ (copyLen_le _ _)]
    exact copyLen_inPage _ _

theorem pmemCall_leaves {c : Call} (harmless : PmemHarmless k s c) :
    Leaves k (pmemCall k) (k.windowPte s) s c := by
  rintro next steps
  cases c with
  | read fd count fault =>
    cases steps
    by_cases faults : Faults fault (copyLen (s.file fd).fPos count)
    · simp only [Kernel.windowPte, pmemRead_fault found faults, pteVal_setPte]
      exact harmless faults
    · simp only [Kernel.windowPte, pmemRead_ok found faults]
  | write fd buf fault =>
    cases steps
    by_cases faults : Faults fault (copyLen (s.file fd).fPos buf.length)
    · -- the part that was copied is in the target frame, away from the entry
      obtain ⟨same, spared⟩ := harmless faults
      exact (windowPte_pmemWrite_fault found faults spared).trans same
    · simp only [Kernel.windowPte, pmemWrite_ok found faults, pteVal_setPte]
  | llseek fd offset whence =>
    cases steps
    rfl

theorem pmemHarmless_of_leaves {c : Call} (spared : SparesEntry k s c)
    (leaves : Leaves k (pmemCall k) (k.windowPte s) s c) : PmemHarmless k s c := by
  cases c with
  | read fd count fault =>
    intro faults
    have after := leaves _ rfl
    simpa only [Kernel.windowPte, pmemRead_fault found faults, pteVal_setPte] using after
  | write fd buf fault =>
    intro faults
    have after := leaves _ rfl
    exact ⟨(windowPte_pmemWrite_fault found faults (spared faults)).symm.trans after, spared faults⟩
  | llseek => trivial

theorem kmemCall_leaves_iff (c : Call) :
    Leaves k (kmemCall k) (k.windowPte s) s c ↔ KmemHarmless k s c := by
  cases c with
  | read fd count fault =>
    cases target : kmemPhyAddr k s.memory (kmemAddr (s.file fd).fPos) with
    | error oops =>
      -- a call that oopses returns to no state, and its target is no page
      simp [Leaves, KmemHarmless, kmemCall, kmemRead, target, Except.map]
    | ok phyAddr =>
      by_cases faults : Faults fault (copyLen (s.file fd).fPos count)
      · obtain ⟨user, ends⟩ := kmemRead_fault found target faults
        simp [Leaves, KmemHarmless, kmemCall, ends, target, faults, Except.map, Kernel.windowPte]
      · have ends := kmemRead_ok found target faults
        simp [Leaves, KmemHarmless, kmemCall, ends, faults, Except.map, Kernel.windowPte]
  | write fd buf fault =>
    cases target : kmemPhyAddr k s.memory (kmemAddr (s.file fd).fPos) with
    | error oops =>
      simp [Leaves, KmemHarmless, kmemCall, kmemWrite, target, Except.map]
    | ok phyAddr =>
      by_cases faults : Faults fault (copyLen (s.file fd).fPos buf.length)
      · have ends := kmemWrite_fault found target faults
        simp [Leaves, KmemHarmless, kmemCall, ends, target, faults, Except.map, Kernel.windowPte]
      · have ends := kmemWrite_ok found target faults
        simp [Leaves, KmemHarmless, kmemCall, ends, faults, Except.map, Kernel.windowPte]
  | llseek fd offset whence =>
    simp [Leaves, KmemHarmless, kmemCall, Kernel.windowPte]

end

/-! ## Whole runs -/

/-- A run of `pmem` calls, each of which finds the entry of `paged_buf`, leaves it in place
    after every call if every call is harmless, and, where no faulting write is aimed at the
    frame of the entry itself, only then; for `kmem` the two are the same for every such run. -/
theorem window_restored_iff_harmless (k : Kernel) (s : State) (calls : List Call) :
    (Along (pmemCall k) (FindsEntry k) s calls →
      (Along (pmemCall k) (PmemHarmless k) s calls →
        Along (pmemCall k) (Leaves k (pmemCall k) (k.windowPte s)) s calls) ∧
      (Along (pmemCall k) (SparesEntry k) s calls →
        Along (pmemCall k) (Leaves k (pmemCall k) (k.windowPte s)) s calls →
        Along (pmemCall k) (PmemHarmless k) s calls)) ∧
    (Along (kmemCall k) (FindsEntry k) s calls →
      (Along (kmemCall k) (Leaves k (kmemCall k) (k.windowPte s)) s calls ↔
        Along (kmemCall k) (KmemHarmless k) s calls)) := by
  refine ⟨fun finds => ⟨fun harmless => ?_, fun spared leaves => ?_⟩,
    fun finds => ⟨fun leaves => ?_, fun harmless => ?_⟩⟩
  -- along the run the entry is the first one, so "unchanged by this call" and "as it was
  -- before the first call" say the same of each call
  · refine Along.imp (fun t => k.windowPte t = k.windowPte s) ?_ ?_ rfl (finds.and harmless)
    · rintro t c same ⟨found, harmless⟩
      rw [← same]
      exact pmemCall_leaves found harmless
    · exact fun t c next _ _ leaves steps => leaves next steps
  · refine Along.imp (fun t => k.windowPte t = k.windowPte s) ?_ ?_ rfl
      (finds.and (spared.and leaves))
    · rintro t c same ⟨found, spared, leaves⟩
      rw [← same] at leaves
      exact pmemHarmless_of_leaves found spared leaves
    · exact fun t c next _ all _ steps => all.2.2 next steps
  · refine Along.imp (fun t => k.windowPte t = k.windowPte s) ?_ ?_ rfl (finds.and leaves)
    · rintro t c same ⟨found, leaves⟩
      rw [← same] at leaves
      exact (kmemCall_leaves_iff found c).mp leaves
    · exact fun t c next _ both _ steps => both.2 next steps
  · refine Along.imp (fun t => k.windowPte t = k.windowPte s) ?_ ?_ rfl (finds.and harmless)
    · rintro t c same ⟨found, harmless⟩
      rw [← same]
      exact (kmemCall_leaves_iff found c).mpr harmless
    · exact fun t c next _ _ leaves steps => leaves next steps

def sampleState : State where
  memory := sampleMemory
  file _ := { fPos := 0x200010#64 }

theorem sampleState_windowPte : sampleKernel.windowPte sampleState = 0x8000000012345163#64 :=
  pteVal_setPte _ _ _

/-- One `pmem_read` whose user buffer faults at its first byte leaves the entry of
    `paged_buf` on the frame that was read. -/
theorem window_lost_by_faulting_read :
    Along (pmemCall sampleKernel) (FindsEntry sampleKernel) sampleState [.read 0 8 (some 0)] ∧
    ¬ Along (pmemCall sampleKernel)
      (Leaves sampleKernel (pmemCall sampleKernel) (sampleKernel.windowPte sampleState))
      sampleState [.read 0 8 (some 0)] := by
  refine ⟨⟨sampleMemory_finds, fun _ _ => trivial⟩, fun along => ?_⟩
  have harmless : PmemHarmless sampleKernel sampleState (.read 0 8 (some 0)) :=
    pmemHarmless_of_leaves sampleMemory_finds trivial along.1
  have same := harmless (by decide)
  rw [sampleState_windowPte] at same
  exact absurd same (by decide)

/-- A write and a read that do not fault leave the entry in place. -/
theorem window_restored_sample :
    Along (pmemCall sampleKernel)
      (Leaves sampleKernel (pmemCall sampleKernel) (sampleKernel.windowPte sampleState))
      sampleState [.write 0 [1, 2, 3] none, .read 0 8 none] := by
  have finds : Along (pmemCall sampleKernel) (FindsEntry sampleKernel) sampleState
      [.write 0 [1, 2, 3] none, .read 0 8 none] := by
    refine ⟨sampleMemory_finds, fun next steps => ⟨?_, fun _ _ => trivial⟩⟩
    cases steps
    have stored : (pmemWrite sampleKernel (sampleState.file 0) [1, 2, 3] none sampleMemory).memory =
        Memory.storeBytes sampleMemory 0x200010 [1, 2, 3] :=
      pmemWrite_stored sampleMemory_finds (not_faults_none _) (by decide)
    refine sampleKernel_finds fun a _ high => ?_
    exact (congrFun stored a).trans (Memory.storeBytes_frame _ _ _ _ (.inl (by omega)))
  exact ((window_restored_iff_harmless sampleKernel sampleState _).1 finds).1
    ⟨fun faults => absurd faults (not_faults_none _), fun _ _ =>
      ⟨fun faults => absurd faults (not_faults_none _), fun _ _ => trivial⟩⟩

end TestPrograms.Devmem
