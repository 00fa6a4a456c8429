import TestPrograms.Devmem.KmemSeek

/-! # Unmapped addresses

`kmem_read` and `kmem_write` dereference what the page walk gives them without a test, so a
walk that finds nothing ends them; and where it finds something for a page that is not
mapped, or is not made at all, they go on as for any other page.
-/

namespace TestPrograms.Devmem

open TestPrograms.Foundations
open TestPrograms.Linux

/-- By a page of any size. -/
def Paging.Mapped (p : Paging) (memory : Memory) (vaddr : BitVec 64) : Prop :=
  (mmuWalk p.mm memory vaddr p.la57).isSome

/-- The call returns, and with an error and no effect where the page is not mapped. -/
def Survives (mapped : Prop) (memory : Memory) (result : Except Oops Transfer) : Prop :=
  ∃ done, result = .ok done ∧
    (¬ mapped → (∃ errno, done.ret = .error errno) ∧ done.user = [] ∧ done.memory = memory)

/-- Outside the kernel image, where the page is looked up. -/
def Walked (addr : BitVec 64) : Prop :=
  addr < 0xffffffff80000000#64 ∨ 0xffffffffc0000000#64 ≤ addr

instance (addr : BitVec 64) : Decidable (Walked addr) := inferInstanceAs (Decidable (_ ∨ _))

/-- The entry a call would install in `paged_buf`'s is the one that is there. -/
def Kernel.Holds (k : Kernel) (memory : Memory) (entry : BitVec 64 → BitVec 64) : Prop :=
  ∀ pte, k.getPte memory k.pagedBuf = some pte → entry (pteVal memory pte) = pteVal memory pte

/-- A read whose user copy faults at once, and which installs what is there. -/
def ReadUnseen (k : Kernel) (memory : Memory) (filp : File) (count : Nat) (fault : Option Nat) : Prop :=
  (Faults fault (copyLen filp.fPos count) ∧ copied fault (copyLen filp.fPos count) = 0) ∧
    ∀ phyAddr, kmemPhyAddr k memory (kmemAddr filp.fPos) = .ok phyAddr →
      k.Holds memory (windowEntry phyAddr)

/-- The bytes copied from the user before a fault are still in `tbuf`. -/
def WriteUnseen (k : Kernel) (memory : Memory) (filp : File) (buf : List Byte) (fault : Option Nat) :
    Prop :=
  Faults fault (copyLen filp.fPos buf.length) ∧
    ∀ phyAddr, kmemPhyAddr k memory (kmemAddr filp.fPos) = .ok phyAddr →
      k.Holds memory (writeEntry phyAddr)

def Kernel.install (k : Kernel) (memory : Memory) (entry : BitVec 64 → BitVec 64) : Memory :=
  match k.getPte memory k.pagedBuf with
  | some pte => setPte memory pte (entry (pteVal memory pte))
  | none => memory

section

variable {k : Kernel} {memory : Memory} {filp : File}

theorem setPte_eq_self_iff (pte : Nat) (value : BitVec 64) :
    setPte memory pte value = memory ↔ value = pteVal memory pte := by
  rw [setPte, Memory.storeWord_eq_self_iff _ _ _ _ value.isLt, ← toNat_pteVal, BitVec.toNat_inj,
    eq_comm]

theorem install_eq_iff (entry : BitVec 64 → BitVec 64) :
    k.install memory entry = memory ↔ k.Holds memory entry := by
  unfold Kernel.install Kernel.Holds
  cases found : k.getPte memory k.pagedBuf with
  | none => simp
  | some pte => simp only [setPte_eq_self_iff, Option.some.injEq, forall_eq']

theorem kmemPhyAddr_ok_iff {addr : BitVec 64} :
    (∃ phyAddr, kmemPhyAddr k memory addr = .ok phyAddr) ↔
      (Walked addr → (k.getPte memory addr).isSome) := by
  unfold kmemPhyAddr Walked
  cases found : k.getPte memory addr with
  | some pte =>
    simp only [Option.isSome_some, implies_true, iff_true]
    split_ifs <;> exact ⟨_, rfl⟩
  | none =>
    simp only [Option.isSome_none, Bool.false_eq_true, imp_false, not_or, BitVec.not_le]
    split_ifs <;> simp_all

/-! ## One transfer -/

variable {phyAddr : BitVec 64}
  (target : kmemPhyAddr k memory (kmemAddr filp.fPos) = .ok phyAddr)

include target

theorem kmemRead_faults {count : Nat} {fault : Option Nat}
    (faults : Faults fault (copyLen filp.fPos count)) :
    kmemRead k filp count fault memory =
      .ok { ret := .error .EFAULT
            user := k.loadWindow (k.install memory (windowEntry phyAddr))
              (filp.fPos &&& 0xfff#64).toNat (copied fault (copyLen filp.fPos count))
            memory := k.install memory (windowEntry phyAddr) } := by
  have left := faults.left
  cases found : k.getPte memory k.pagedBuf <;>
    simp only [kmemRead, target, Kernel.copyToUser, left, ne_eq, not_false_eq_true, if_true,
      Kernel.install, found]

theorem kmemRead_returns {count : Nat} {fault : Option Nat}
    (faultless : ¬ Faults fault (copyLen filp.fPos count)) :
    ∃ done, kmemRead k filp count fault memory = .ok done ∧ done.ret = .ok (copyLen filp.fPos count) := by
  have all := copied_of_not_faults faultless
  simp only [kmemRead, target, Kernel.copyToUser, all, Nat.sub_self, ne_eq, not_true_eq_false, if_false]
  exact ⟨_, rfl, rfl⟩

theorem kmemWrite_faults {buf : List Byte} {fault : Option Nat}
    (faults : Faults fault (copyLen filp.fPos buf.length)) :
    kmemWrite k filp buf fault memory =
      .ok { ret := .error .EFAULT, user := [], memory := k.install memory (writeEntry phyAddr) } := by
  have left := faults.left
  cases found : k.getPte memory k.pagedBuf <;>
    simp only [kmemWrite, target, copyFromUser, left, ne_eq, not_false_eq_true, if_true, Kernel.install,
      writeEntry, found]

theorem kmemWrite_returns {buf : List Byte} {fault : Option Nat}
    (faultless : ¬ Faults fault (copyLen filp.fPos buf.length)) :
    ∃ done, kmemWrite k filp buf fault memory = .ok done ∧
      done.ret = .ok (copyLen filp.fPos buf.length) := by
  have all := copied_of_not_faults faultless
  simp only [kmemWrite, target, copyFromUser, all, Nat.sub_self, ne_eq, not_true_eq_false, if_false]
  exact ⟨_, rfl, rfl⟩

omit target

theorem not_survives_oops {mapped : Prop} {oops : Oops} : ¬ Survives mapped memory (.error oops) := by
  rintro ⟨_, same, _⟩
  cases same

theorem survives_ok_iff {mapped : Prop} {done : Transfer} {length : Nat} (returns : done.ret = .ok length) :
    Survives mapped memory (.ok done) ↔ mapped := by
  constructor
  · rintro ⟨_, ⟨⟩, unmapped⟩
    by_contra none
    obtain ⟨⟨errno, fails⟩, _⟩ := unmapped none
    rw [returns] at fails
    cases fails
  · exact fun there => ⟨done, rfl, fun none => absurd there none⟩

theorem survives_error_iff {mapped : Prop} {errno : Errno} {user : List Byte} {after : Memory} :
    Survives mapped memory (.ok { ret := .error errno, user, memory := after }) ↔
      mapped ∨ user = [] ∧ after = memory := by
  constructor
  · rintro ⟨_, ⟨⟩, unmapped⟩
    exact Classical.or_iff_not_imp_left.mpr fun none => (unmapped none).2
  · rintro (there | ⟨nothing, same⟩)
    · exact ⟨_, rfl, fun none => absurd there none⟩
    · exact ⟨_, rfl, fun _ => ⟨⟨errno, rfl⟩, nothing, same⟩⟩

theorem kmemRead_survives_iff (mapped : Prop) (count : Nat) (fault : Option Nat) :
    Survives mapped memory (kmemRead k filp count fault memory) ↔
      (Walked (kmemAddr filp.fPos) → (k.getPte memory (kmemAddr filp.fPos)).isSome) ∧
        (mapped ∨ ReadUnseen k memory filp count fault) := by
  rw [← kmemPhyAddr_ok_iff]
  cases target : kmemPhyAddr k memory (kmemAddr filp.fPos) with
  | error oops =>
    simp only [kmemRead, target, not_survives_oops, reduceCtorEq, exists_false, false_and]
  | ok phyAddr =>
    by_cases faults : Faults fault (copyLen filp.fPos count)
    · rw [kmemRead_faults target faults, survives_error_iff, install_eq_iff]
      have nothing (m : Memory) (offset length : Nat) : k.loadWindow m offset length = [] ↔ length = 0 := by
        rw [← List.length_eq_zero_iff, Kernel.loadWindow, Memory.loadBytes_length]
      simp [ReadUnseen, target, faults, nothing]
    · obtain ⟨done, ends, returns⟩ := kmemRead_returns target faults
      rw [ends, survives_ok_iff returns]
      simp [ReadUnseen, faults]

theorem kmemWrite_survives_iff (mapped : Prop) (buf : List Byte) (fault : Option Nat) :
    Survives mapped memory (kmemWrite k filp buf fault memory) ↔
      (Walked (kmemAddr filp.fPos) → (k.getPte memory (kmemAddr filp.fPos)).isSome) ∧
        (mapped ∨ WriteUnseen k memory filp buf fault) := by
  rw [← kmemPhyAddr_ok_iff]
  cases target : kmemPhyAddr k memory (kmemAddr filp.fPos) with
  | error oops =>
    simp only [kmemWrite, target, not_survives_oops, reduceCtorEq, exists_false, false_and]
  | ok phyAddr =>
    by_cases faults : Faults fault (copyLen filp.fPos buf.length)
    · rw [kmemWrite_faults target faults, survives_error_iff, install_eq_iff]
      simp [WriteUnseen, target, faults]
    · obtain ⟨done, ends, returns⟩ := kmemWrite_returns target faults
      rw [ends, survives_ok_iff returns]
      simp [WriteUnseen, faults]

end

/-! ## Every table and position -/

/-- After any seek, reads and writes survive exactly if the walk finds an entry for the address,
    where it is made, and the page is mapped or the call comes to nothing before it shows. -/
theorem unmapped_survived_iff (p : Paging) (host : Kernel) (memory : Memory) (flip : File)
    (offset : BitVec 64) (whence : Whence) :
    let k := p.kernel host
    let filp := (kmemLlseek flip offset whence).1
    let addr := kmemAddr filp.fPos
    (∀ count fault, Survives (p.Mapped memory addr) memory (kmemRead k filp count fault memory) ↔
      (Walked addr → (p.getPte memory addr).isSome) ∧
        (p.Mapped memory addr ∨ ReadUnseen k memory filp count fault)) ∧
    ∀ buf fault, Survives (p.Mapped memory addr) memory (kmemWrite k filp buf fault memory) ↔
      (Walked addr → (p.getPte memory addr).isSome) ∧
        (p.Mapped memory addr ∨ WriteUnseen k memory filp buf fault) := by
  intro k filp addr
  exact ⟨kmemRead_survives_iff _, kmemWrite_survives_iff _⟩

/-- A read at an address for which the tables have nothing. -/
theorem unmapped_read_oopses :
    let p : Paging := { h := x86 false, mm := 0x1000, la57 := false }
    let filp := (kmemLlseek { fPos := 0 } 0xffff888000000000#64 .seekSet).1
    kmemRead (p.kernel sampleKernel) filp 8 none (fun _ => 0) = .error .nullPte ∧
      ¬ Survives (p.Mapped (fun _ => 0) (kmemAddr filp.fPos)) (fun _ => 0)
        (kmemRead (p.kernel sampleKernel) filp 8 none (fun _ => 0)) := by
  intro p filp
  have nothing : p.getPte (fun _ => 0) (kmemAddr filp.fPos) = none := by decide
  have walked : kmemAddr filp.fPos < 0xffffffff80000000#64 := by decide
  have oopses : kmemRead (p.kernel sampleKernel) filp 8 none (fun _ => 0) = .error .nullPte := by
    simp only [kmemRead, kmemPhyAddr, Paging.kernel, nothing, walked, if_true]
  rw [oopses]
  exact ⟨rfl, not_survives_oops⟩

end TestPrograms.Devmem
