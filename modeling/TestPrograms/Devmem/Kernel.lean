import TestPrograms.Linux.UserCopy

/-! # The kernel under the memory devices

`/dev/pmem` and `/dev/kmem` reach any physical page through one page-sized buffer,
`paged_buf`, whose page-table entry they rewrite.  This file has what both drivers
share: physical memory with that entry in it, the accesses that go through the
buffer, and the copies to and from user space that may fault part-way.
-/

namespace TestPrograms.Devmem

open TestPrograms.Foundations
open TestPrograms.Foundations.Memory
open TestPrograms.Linux

/-- The surroundings of a driver.  `getPte` is the driver's page walk (the physical
    address of the entry found, `none` for NULL), which may read any of memory;
    `pagedPte` is the entry the MMU uses for `paged_buf`. -/
structure Kernel where
  pagedBuf : BitVec 64
  pagedPte : Nat
  aligned : pagedPte % 8 = 0
  getPte : Memory → BitVec 64 → Option Nat
  virtToPhys : BitVec 64 → BitVec 64

structure File where
  fPos : BitVec 64
  deriving DecidableEq, Repr

inductive Whence where
  | seekSet
  | seekCur
  | seekEnd
  | other
  deriving DecidableEq, Repr

/-- A NULL page-table entry was dereferenced: the call never returns. -/
inductive Oops where
  | nullPte
  deriving DecidableEq, Repr

/-- The walk finds the entry of `paged_buf`. -/
def Kernel.Finds (k : Kernel) (memory : Memory) : Prop :=
  k.getPte memory k.pagedBuf = some k.pagedPte

instance (k : Kernel) (memory : Memory) : Decidable (k.Finds memory) :=
  inferInstanceAs (Decidable (_ = _))

/-! ## Page-table entries -/

def pteVal (memory : Memory) (pte : Nat) : BitVec 64 :=
  BitVec.ofNat 64 (loadWord memory pte 8)

def setPte (memory : Memory) (pte : Nat) (value : BitVec 64) : Memory :=
  storeWord memory pte 8 value.toNat

/-- The frame field of an entry, bits 12 to 51. -/
def frame (entry : BitVec 64) : Nat := (entry.extractLsb' 12 40).toNat

-- `(target & ~0xfff) | (save & 0xfff)`, the entry both drivers install.
def windowEntry (target save : BitVec 64) : BitVec 64 :=
  (target &&& ~~~0xfff#64) ||| (save &&& 0xfff#64)

-- `_PAGE_RW`
def pageRw : BitVec 64 := 0x2#64

@[simp] theorem pteVal_setPte (memory : Memory) (pte : Nat) (value : BitVec 64) :
    pteVal (setPte memory pte value) pte = value := by
  apply BitVec.eq_of_toNat_eq
  have := value.isLt
  simp only [pteVal, setPte, loadWord_storeWord, BitVec.toNat_ofNat]
  omega

@[simp] theorem setPte_setPte (memory : Memory) (pte : Nat) (first second : BitVec 64) :
    setPte (setPte memory pte first) pte second = setPte memory pte second :=
  storeWord_storeWord _ _ _ _ _

theorem toNat_pteVal (memory : Memory) (pte : Nat) :
    (pteVal memory pte).toNat = loadWord memory pte 8 := by
  have := loadWord_lt memory pte 8
  simp only [pteVal, BitVec.toNat_ofNat]
  omega

@[simp] theorem setPte_pteVal (memory : Memory) (pte : Nat) :
    setPte memory pte (pteVal memory pte) = memory := by
  rw [setPte, toNat_pteVal, storeWord_loadWord]

theorem setPte_frame (memory : Memory) (pte : Nat) (value : BitVec 64) (a : Nat)
    (outside : a < pte ∨ pte + 8 ≤ a) : setPte memory pte value a = memory a :=
  storeWord_frame _ _ _ _ _ outside

theorem pteVal_congr {left right : Memory} {pte : Nat}
    (agree : ∀ a, pte ≤ a → a < pte + 8 → left a = right a) :
    pteVal left pte = pteVal right pte := by
  rw [pteVal, loadWord_congr agree, pteVal]

theorem toNat_frame (entry : BitVec 64) : frame entry = entry.toNat / 4096 % 2 ^ 40 := by
  simp [frame, BitVec.extractLsb'_toNat, Nat.shiftRight_eq_div_pow]

theorem lowMask_getLsbD (i : Nat) : (0xfff#64).getLsbD i = decide (i < 12) := by
  have ones : (0xfff : Nat) = 2 ^ 12 - 1 := rfl
  rw [BitVec.getLsbD_ofNat, ones, Nat.testBit_two_pow_sub_one]
  by_cases low : i < 12
  · simp [low, show i < 64 by omega]
  · simp [low]

@[simp] theorem frame_windowEntry (target save : BitVec 64) :
    frame (windowEntry target save) = frame target := by
  unfold frame
  congr 1
  apply BitVec.eq_of_getLsbD_eq
  intro i bound
  simp only [windowEntry, BitVec.getLsbD_extractLsb', BitVec.getLsbD_or, BitVec.getLsbD_and,
    BitVec.getLsbD_not, lowMask_getLsbD]
  have high : ¬ 12 + i < 12 := by omega
  have wide : 12 + i < 64 := by omega
  simp [bound, wide]

@[simp] theorem frame_or_pageRw (entry : BitVec 64) : frame (entry ||| pageRw) = frame entry := by
  unfold frame
  congr 1
  apply BitVec.eq_of_getLsbD_eq
  intro i bound
  have clear : pageRw.getLsbD (12 + i) = false := by
    rw [pageRw, BitVec.getLsbD_ofNat, Nat.testBit_lt_two_pow]
    · simp
    · exact Nat.lt_of_lt_of_le (by decide : 2 < 2 ^ 12) (Nat.pow_le_pow_right (by decide) (by omega))
  simp [BitVec.getLsbD_extractLsb', clear]

theorem frame_of_lt {target : BitVec 64} (low : target.toNat < 2 ^ 52) :
    frame target = target.toNat / 4096 := by
  rw [toNat_frame]
  omega

theorem toNat_and_lowMask (pos : BitVec 64) : (pos &&& 0xfff#64).toNat = pos.toNat % 4096 := by
  rw [BitVec.toNat_and]
  exact Nat.and_two_pow_sub_one_eq_mod pos.toNat 12

/-! ## Accesses through `paged_buf` -/

/-- The physical address behind `paged_buf + offset`, through the current entry. -/
def Kernel.windowAddr (k : Kernel) (memory : Memory) (offset : Nat) : Nat :=
  frame (pteVal memory k.pagedPte) * 4096 + offset

def Kernel.loadWindow (k : Kernel) (memory : Memory) (offset count : Nat) : List Byte :=
  loadBytes memory (k.windowAddr memory offset) count

/-- Each byte goes through the entry as it is at that moment: a copy that runs over
    the entry itself changes where its later bytes go. -/
def Kernel.storeWindow (k : Kernel) (memory : Memory) (offset : Nat) : List Byte → Memory
  | [] => memory
  | byte :: bytes =>
    k.storeWindow (Function.update memory (k.windowAddr memory offset) byte) (offset + 1) bytes

/-- The entry of `paged_buf` does not lie in the frame the window shows. -/
def Kernel.Clear (k : Kernel) (memory : Memory) : Prop :=
  frame (pteVal memory k.pagedPte) ≠ k.pagedPte / 4096

theorem pteVal_update (memory : Memory) {pte a : Nat} (apart : a < pte ∨ pte + 8 ≤ a) (byte : Byte) :
    pteVal (Function.update memory a byte) pte = pteVal memory pte := by
  apply pteVal_congr
  intro b low high
  exact Function.update_of_ne (by omega) _ _

/-- A copy that does not run over the entry is a store where the window shows. -/
theorem Kernel.storeWindow_eq_of_apart (k : Kernel) (memory : Memory) (offset : Nat)
    (bytes : List Byte)
    (apart : k.windowAddr memory offset + bytes.length ≤ k.pagedPte ∨
      k.pagedPte + 8 ≤ k.windowAddr memory offset) :
    k.storeWindow memory offset bytes = storeBytes memory (k.windowAddr memory offset) bytes := by
  induction bytes generalizing memory offset with
  | nil => rfl
  | cons byte bytes ih =>
    simp only [List.length_cons] at apart
    -- the byte is not in the entry, so the next one goes behind it
    have kept := pteVal_update memory (show k.windowAddr memory offset < k.pagedPte ∨
      k.pagedPte + 8 ≤ k.windowAddr memory offset by omega) byte
    have next : k.windowAddr (Function.update memory (k.windowAddr memory offset) byte) (offset + 1) =
        k.windowAddr memory offset + 1 := by
      rw [windowAddr, kept, windowAddr, Nat.add_assoc]
    rw [storeWindow, ih _ _ (by omega), next, storeBytes]

theorem Kernel.pteVal_storeWindow_apart (k : Kernel) (memory : Memory) (offset : Nat)
    (bytes : List Byte)
    (apart : k.windowAddr memory offset + bytes.length ≤ k.pagedPte ∨
      k.pagedPte + 8 ≤ k.windowAddr memory offset) :
    pteVal (k.storeWindow memory offset bytes) k.pagedPte = pteVal memory k.pagedPte := by
  rw [k.storeWindow_eq_of_apart memory offset bytes apart]
  exact pteVal_congr fun a _ _ => storeBytes_frame _ _ _ _ (by omega)

theorem Kernel.Clear.apart {k : Kernel} {memory : Memory} (clear : k.Clear memory) {offset count : Nat}
    (inPage : offset + count ≤ 4096) :
    k.windowAddr memory offset + count ≤ k.pagedPte ∨ k.pagedPte + 8 ≤ k.windowAddr memory offset := by
  have aligned := k.aligned
  have other : frame (pteVal memory k.pagedPte) ≠ k.pagedPte / 4096 := clear
  unfold windowAddr
  omega

/-- In another page than the entry's, a copy through the window is a store to the frame. -/
theorem Kernel.storeWindow_eq (k : Kernel) (memory : Memory) (offset : Nat) (bytes : List Byte)
    (clear : k.Clear memory) (inPage : offset + bytes.length ≤ 4096) :
    k.storeWindow memory offset bytes =
      storeBytes memory (frame (pteVal memory k.pagedPte) * 4096 + offset) bytes :=
  k.storeWindow_eq_of_apart memory offset bytes (clear.apart inPage)

theorem Kernel.pteVal_storeWindow (k : Kernel) (memory : Memory) (offset : Nat)
    (bytes : List Byte) (clear : k.Clear memory) (inPage : offset + bytes.length ≤ 4096) :
    pteVal (k.storeWindow memory offset bytes) k.pagedPte = pteVal memory k.pagedPte :=
  k.pteVal_storeWindow_apart memory offset bytes (clear.apart inPage)

/-- With the saved entry put back afterwards, a copy through the window has stored its bytes in
    the frame that was shown and changed nothing else. -/
theorem Kernel.store_restored (k : Kernel) (memory : Memory) {entry : BitVec 64} {offset : Nat}
    {bytes : List Byte} (spared : frame entry ≠ k.pagedPte / 4096)
    (inPage : offset + bytes.length ≤ 4096) :
    setPte (k.storeWindow (setPte memory k.pagedPte entry) offset bytes) k.pagedPte
        (pteVal memory k.pagedPte) =
      storeBytes memory (frame entry * 4096 + offset) bytes := by
  have aligned := k.aligned
  have clear : k.Clear (setPte memory k.pagedPte entry) := by
    simpa only [Clear, pteVal_setPte] using spared
  rw [k.storeWindow_eq _ _ _ clear inPage, pteVal_setPte, setPte, setPte, storeWord, storeWord]
  -- the entry is put back around a store that does not touch it
  rw [storeBytes_comm memory (by simp only [wordBytes_length]; omega), ← storeWord, ← storeWord,
    storeWord_storeWord, toNat_pteVal, storeWord_eq_self_iff _ _ _ _ (loadWord_lt _ _ _)]
  exact loadWord_congr fun a _ _ => storeBytes_frame _ _ _ _ (by omega)

/-- `copy_to_user(buf, paged_buf + offset, count)`: the bytes left and the bytes the
    user got. -/
def Kernel.copyToUser (k : Kernel) (memory : Memory) (offset count : Nat) (fault : Option Nat) :
    Nat × List Byte :=
  (count - copied fault count, k.loadWindow memory offset (copied fault count))

/-- `copy_len`: a call never crosses the end of the page it starts in. -/
def copyLen (fPos : BitVec 64) (count : Nat) : Nat :=
  let leftLen := 0x1000 - (fPos &&& 0xfff#64).toNat
  if count ≤ leftLen then count else leftLen

theorem copyLen_eq (fPos : BitVec 64) (count : Nat) :
    copyLen fPos count = min count (4096 - fPos.toNat % 4096) := by
  simp only [copyLen, toNat_and_lowMask]
  split <;> omega

theorem copyLen_le (fPos : BitVec 64) (count : Nat) : copyLen fPos count ≤ count := by
  rw [copyLen_eq]
  omega

theorem length_take_copyLen (fPos : BitVec 64) (buf : List Byte) :
    (buf.take (copyLen fPos buf.length)).length = copyLen fPos buf.length := by
  rw [List.length_take]
  exact Nat.min_eq_left (copyLen_le _ _)

theorem copyLen_inPage (fPos : BitVec 64) (count : Nat) :
    (fPos &&& 0xfff#64).toNat + copyLen fPos count ≤ 4096 := by
  rw [copyLen_eq, toNat_and_lowMask]
  omega

/-! ## Calls

The calls a process can make on an open device, by the number of the open file. -/

structure State where
  memory : Memory
  file : Nat → File

inductive Call where
  | read (fd count : Nat) (fault : Option Nat)
  | write (fd : Nat) (buf : List Byte) (fault : Option Nat)
  | llseek (fd : Nat) (offset : BitVec 64) (whence : Whence)

def State.seek (s : State) (fd : Nat) (moved : File) : State :=
  { s with file := Function.update s.file fd moved }

@[simp] theorem State.seek_memory (s : State) (fd : Nat) (moved : File) :
    (s.seek fd moved).memory = s.memory := rfl

end TestPrograms.Devmem
