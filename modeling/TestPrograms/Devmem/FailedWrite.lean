import TestPrograms.Devmem.Unmapped

/-! # Writes that fail

`pmem_write` copies from the user straight into the page it shows, `kmem_write` into `tbuf`.
When the copy faults, the first has stored the bytes before the fault and zeros behind them,
the second has only installed the entry, and left it there.
-/

namespace TestPrograms.Devmem

open TestPrograms.Foundations
open TestPrograms.Foundations.Memory
open TestPrograms.Linux

/-- No byte of the run has changed. -/
def Untouched (memory after : Memory) (place count : Nat) : Prop :=
  ∀ i < count, after (place + i) = memory (place + i)

/-! ## The bytes of an entry -/

def entryByte (entry : BitVec 64) (i : Nat) : Byte := entry.extractLsb' (8 * i) 8

theorem setPte_apply (memory : Memory) (pte : Nat) (value : BitVec 64) (a : Nat) :
    setPte memory pte value a =
      if pte ≤ a ∧ a < pte + 8 then entryByte value (a - pte) else memory a := by
  rw [setPte, storeWord, storeBytes_apply]
  by_cases inside : pte ≤ a ∧ a < pte + 8
  · rw [dif_pos (by rwa [wordBytes_length]), if_pos inside, wordBytes_getElem]
    apply BitVec.eq_of_toNat_eq
    rw [entryByte, BitVec.extractLsb'_toNat, BitVec.toNat_ofNat, Nat.shiftRight_eq_div_pow, pow_mul]
    norm_num
  · rw [dif_neg (by rwa [wordBytes_length]), if_neg inside]

theorem entryByte_pteVal (memory : Memory) {pte a : Nat} (low : pte ≤ a) (high : a < pte + 8) :
    entryByte (pteVal memory pte) (a - pte) = memory a := by
  have same := setPte_apply memory pte (pteVal memory pte) a
  rwa [setPte_pteVal, if_pos ⟨low, high⟩, eq_comm] at same

/-! ## A copy through the window, byte by byte -/

/-- A copy changes only bytes at its own offsets in a page, whichever pages it goes to. -/
theorem Kernel.storeWindow_apart (k : Kernel) (memory : Memory) {f o offset : Nat} {bytes : List Byte}
    (page : o < 4096) (inPage : offset + bytes.length ≤ 4096)
    (apart : o < offset ∨ offset + bytes.length ≤ o) :
    k.storeWindow memory offset bytes (f * 4096 + o) = memory (f * 4096 + o) := by
  induction bytes generalizing memory offset with
  | nil => rfl
  | cons byte bytes ih =>
    simp only [List.length_cons] at inPage apart
    rw [storeWindow, ih _ (by omega) (by omega), Function.update_of_ne]
    rw [windowAddr]
    omega

/-- A byte of a page is the one copied if the window shows that page when it is copied. -/
theorem Kernel.storeWindow_apply (k : Kernel) (memory : Memory) {f offset l : Nat} {bytes : List Byte}
    (inPage : offset + bytes.length ≤ 4096) (inside : l < bytes.length) :
    k.storeWindow memory offset bytes (f * 4096 + (offset + l)) =
      if frame (pteVal (k.storeWindow memory offset (bytes.take l)) k.pagedPte) = f then bytes[l]
      else memory (f * 4096 + (offset + l)) := by
  induction bytes generalizing memory offset l with
  | nil => simp at inside
  | cons byte bytes ih =>
    simp only [List.length_cons] at inPage inside
    cases l with
    | zero =>
      -- the later bytes have other offsets
      rw [storeWindow, k.storeWindow_apart _ (by omega) (by omega) (by omega)]
      simp only [List.take_zero, storeWindow, Nat.add_zero, List.getElem_cons_zero]
      by_cases shown : frame (pteVal memory k.pagedPte) = f
      · rw [if_pos shown, windowAddr, shown, Function.update_self]
      · rw [if_neg shown, Function.update_of_ne]
        rw [windowAddr]
        omega
    | succ l =>
      have rest := @ih (Function.update memory (k.windowAddr memory offset) byte) (offset + 1) l
        (by omega) (by omega)
      rw [show offset + 1 + l = offset + (l + 1) by omega] at rest
      have kept : Function.update memory (k.windowAddr memory offset) byte (f * 4096 + (offset + (l + 1))) =
          memory (f * 4096 + (offset + (l + 1))) := by
        apply Function.update_of_ne
        rw [windowAddr]
        omega
      rw [storeWindow, rest, kept]
      rfl

/-! ## What a failed write is for -/

/-- The first byte of a write's target, `phyAddr` being `f_pos` itself in `pmem_write`. -/
def writeTarget (phyAddr fPos : BitVec 64) : Nat := frame phyAddr * 4096 + (fPos &&& 0xfff#64).toNat

/-- The call changes nothing of its target if it returns `-EFAULT`. -/
def FailsClean (memory : Memory) (place count : Nat) (done : Transfer) : Prop :=
  done.ret = .error .EFAULT → Untouched memory done.memory place count

/-- The byte of memory is the same with the entry in place of `paged_buf`'s. -/
def Kernel.Spared (k : Kernel) (memory : Memory) (entry : BitVec 64 → BitVec 64) (a : Nat) : Prop :=
  ∀ pte, k.getPte memory k.pagedBuf = some pte → pte ≤ a → a < pte + 8 →
    entryByte (entry (pteVal memory pte)) (a - pte) = entryByte (pteVal memory pte) (a - pte)

/-- What is placed in the target is what was there.  Bytes for which the window shows another
    page, because the copy has run over its entry, have only to be spared by the entry. -/
def PlacedAsWas (k : Kernel) (memory : Memory) (fPos : BitVec 64) (placed : List Byte) : Prop :=
  ∀ l (inside : l < placed.length),
    if frame (pteVal (k.storeWindow (k.install memory (writeEntry fPos)) (fPos &&& 0xfff#64).toNat
        (placed.take l)) k.pagedPte) = frame fPos then
      placed[l] = memory (writeTarget fPos fPos + l)
    else k.Spared memory (writeEntry fPos) (writeTarget fPos fPos + l)

section

variable {k : Kernel} {memory : Memory} {filp : File} {buf : List Byte} {fault : Option Nat}

theorem install_apply_eq_iff (entry : BitVec 64 → BitVec 64) (a : Nat) :
    k.install memory entry a = memory a ↔ k.Spared memory entry a := by
  unfold Kernel.install Kernel.Spared
  cases found : k.getPte memory k.pagedBuf with
  | none => simp
  | some pte =>
    simp only [Option.some.injEq, forall_eq', setPte_apply]
    by_cases inside : pte ≤ a ∧ a < pte + 8
    · rw [if_pos inside, entryByte_pteVal memory inside.1 inside.2]
      exact ⟨fun same _ _ => same, fun same => same inside.1 inside.2⟩
    · rw [if_neg inside]
      exact ⟨fun _ low high => absurd ⟨low, high⟩ inside, fun _ => rfl⟩

theorem pmemWrite_faults (faults : Faults fault (copyLen filp.fPos buf.length)) :
    pmemWrite k filp buf fault memory =
      { ret := .error .EFAULT
        user := []
        memory := k.storeWindow (k.install memory (writeEntry filp.fPos)) (filp.fPos &&& 0xfff#64).toNat
          (copyFromUser buf (copyLen filp.fPos buf.length) fault).2 } := by
  have left := faults.left
  cases found : k.getPte memory k.pagedBuf <;>
    simp only [pmemWrite, copyFromUser, left, ne_eq, not_false_eq_true, if_true, Kernel.install,
      writeEntry, found]

theorem pmemWrite_returns (faultless : ¬ Faults fault (copyLen filp.fPos buf.length)) :
    (pmemWrite k filp buf fault memory).ret = .ok (copyLen filp.fPos buf.length) := by
  have all := copied_of_not_faults faultless
  simp only [pmemWrite, copyFromUser, all, Nat.sub_self, ne_eq, not_true_eq_false, if_false]

theorem pmemWrite_failsClean_iff :
    FailsClean memory (writeTarget filp.fPos filp.fPos) (copyLen filp.fPos buf.length)
        (pmemWrite k filp buf fault memory) ↔
      (Faults fault (copyLen filp.fPos buf.length) →
        PlacedAsWas k memory filp.fPos (copyFromUser buf (copyLen filp.fPos buf.length) fault).2) := by
  by_cases faults : Faults fault (copyLen filp.fPos buf.length)
  · have length := copyFromUser_length buf (copyLen filp.fPos buf.length) fault (copyLen_le _ _)
    have inPage := copyLen_inPage filp.fPos buf.length
    simp only [FailsClean, pmemWrite_faults faults, faults, forall_const, Untouched, PlacedAsWas]
    generalize (copyFromUser buf (copyLen filp.fPos buf.length) fault).2 = placed at length ⊢
    rw [← length] at inPage ⊢
    refine forall_congr' fun l => forall_congr' fun inside => ?_
    -- one byte of the copy
    rw [writeTarget, Nat.add_assoc, k.storeWindow_apply _ inPage inside, ← Nat.add_assoc]
    split
    · rfl
    · exact install_apply_eq_iff _ _
  · simp only [FailsClean, pmemWrite_returns faults, faults, reduceCtorEq, false_implies]

theorem kmemWrite_failsClean_iff {phyAddr : BitVec 64}
    (target : kmemPhyAddr k memory (kmemAddr filp.fPos) = .ok phyAddr) :
    (∀ done, kmemWrite k filp buf fault memory = .ok done →
        FailsClean memory (writeTarget phyAddr filp.fPos) (copyLen filp.fPos buf.length) done) ↔
      (Faults fault (copyLen filp.fPos buf.length) → ∀ i < copyLen filp.fPos buf.length,
        k.Spared memory (writeEntry phyAddr) (writeTarget phyAddr filp.fPos + i)) := by
  by_cases faults : Faults fault (copyLen filp.fPos buf.length)
  · simp only [kmemWrite_faults target faults, Except.ok.injEq, forall_eq', FailsClean, forall_const,
      Untouched, install_apply_eq_iff, faults]
  · obtain ⟨done, ends, returns⟩ := kmemWrite_returns target faults
    simp only [ends, Except.ok.injEq, forall_eq', FailsClean, returns, reduceCtorEq, false_implies, faults]

/-- Away from the entry of `paged_buf`, that is the bytes copied before the fault and the zeros
    behind them. -/
theorem placedAsWas_iff (found : k.getPte memory k.pagedBuf = some k.pagedPte) {fPos : BitVec 64}
    {placed : List Byte} (apart : writeTarget fPos fPos + placed.length ≤ k.pagedPte ∨
      k.pagedPte + 8 ≤ writeTarget fPos fPos) :
    PlacedAsWas k memory fPos placed ↔
      placed = Memory.loadBytes memory (writeTarget fPos fPos) placed.length := by
  have shown (l : Nat) : frame (pteVal (k.storeWindow (k.install memory (writeEntry fPos))
      (fPos &&& 0xfff#64).toNat (placed.take l)) k.pagedPte) = frame fPos := by
    have short : (placed.take l).length ≤ placed.length := List.length_take_le' l placed
    simp only [Kernel.install, found]
    rw [k.pteVal_storeWindow_apart, pteVal_setPte, frame_writeEntry]
    rw [Kernel.windowAddr, pteVal_setPte, frame_writeEntry, ← writeTarget]
    omega
  simp only [PlacedAsWas, shown, if_true]
  constructor
  · intro same
    apply List.ext_getElem (by rw [Memory.loadBytes_length])
    intro l inside _
    rw [same l inside, Memory.loadBytes_getElem]
  · intro same l inside
    rw [List.getElem_of_eq same, Memory.loadBytes_getElem]

end

/-! ## Every position, count and fault -/

/-- A write that returns `-EFAULT` leaves its target as it was exactly if, in `pmem_write`, what it
    places there is there already and, in `kmem_write`, the entry it installs is the same as the
    saved one in the bytes that the target has of it. -/
theorem failed_write_clean_iff (k : Kernel) (memory : Memory) (filp : File) (buf : List Byte)
    (fault : Option Nat) :
    let count := copyLen filp.fPos buf.length
    (FailsClean memory (writeTarget filp.fPos filp.fPos) count (pmemWrite k filp buf fault memory) ↔
      (Faults fault count → PlacedAsWas k memory filp.fPos (copyFromUser buf count fault).2)) ∧
    ∀ phyAddr, kmemPhyAddr k memory (kmemAddr filp.fPos) = .ok phyAddr →
      ((∀ done, kmemWrite k filp buf fault memory = .ok done →
          FailsClean memory (writeTarget phyAddr filp.fPos) count done) ↔
        (Faults fault count → ∀ i < count,
          k.Spared memory (writeEntry phyAddr) (writeTarget phyAddr filp.fPos + i))) := by
  intro count
  exact ⟨pmemWrite_failsClean_iff, fun _ target => kmemWrite_failsClean_iff target⟩

/-- A fault before the first byte of one: the byte of memory is zeroed. -/
theorem failed_write_zeroes :
    let memory := Function.update sampleMemory 0x5000 0xff
    let done := pmemWrite sampleKernel { fPos := 0x5000 } [0x12] (some 0) memory
    done.ret = .error .EFAULT ∧ done.memory 0x5000 = 0 ∧
      ¬ FailsClean memory (writeTarget 0x5000 0x5000) 1 done := by
  intro memory done
  have found : sampleKernel.Finds memory :=
    sampleKernel_finds fun _ _ high => Function.update_of_ne (by omega) _ _
  have faults : Faults (some 0) (copyLen 0x5000#64 1) := by decide
  have fails : done.ret = .error .EFAULT := congrArg Transfer.ret (pmemWrite_faults faults)
  have zeroed : done.memory 0x5000 = 0 := by
    have placed : (copyFromUser [0x12] (copyLen 0x5000 1) (some 0)).2 = [0] := by decide
    have stored : done.memory = _ := pmemWrite_fault found faults
    have place (save : BitVec 64) : sampleKernel.windowAddr
        (setPte memory sampleKernel.pagedPte (writeEntry 0x5000 save)) (0x5000 &&& 0xfff#64).toNat =
          0x5000 := by
      rw [Kernel.windowAddr, pteVal_setPte, frame_writeEntry]
      decide
    rw [stored, List.length_singleton]
    dsimp only
    rw [placed, Kernel.storeWindow, Kernel.storeWindow, place,
      Function.update_self]
  refine ⟨fails, zeroed, fun clean => ?_⟩
  have kept := clean fails 0 (by decide)
  rw [show writeTarget 0x5000 0x5000 + 0 = 0x5000 by decide, zeroed] at kept
  exact absurd kept (by decide)

end TestPrograms.Devmem
