import TestPrograms.Devmem.PmemRoundTrip

/-! # `pmem_mmap`

The mapping is made page by page with the frame that `vmalloc_to_pfn` finds behind the
offset, as if the offset were a virtual address of the kernel; `pmem_read` takes the same
offset for a physical one.
-/

namespace TestPrograms.Devmem

open TestPrograms.Foundations
open TestPrograms.Foundations.Memory
open TestPrograms.Linux

/-- `struct vm_area_struct`; `vmPgoff` is the file offset in pages. -/
structure Vma where
  vmStart : BitVec 64
  vmEnd : BitVec 64
  vmPgoff : BitVec 64
  deriving DecidableEq, Repr

inductive MmapErrno where
  | EINVAL
  | EAGAIN
  deriving DecidableEq, Repr

/-- A user page with the frame it is mapped to. -/
abbrev Mapping := BitVec 64 × Nat

/-- `while (size > 0)`; `refused round` is a `remap_pfn_range` that fails. -/
def mmapLoop (vmallocToPfn : BitVec 64 → Nat) (refused : Nat → Bool) (round size : Nat)
    (start pos : BitVec 64) (mapped : List Mapping) : Except MmapErrno Unit × List Mapping :=
  if _more : size > 0 then
    let page := vmallocToPfn pos
    if refused round then (.error .EAGAIN, mapped)
    else
      mmapLoop vmallocToPfn refused (round + 1) (if size > 0x1000 then size - 0x1000 else 0)
        (start + 0x1000#64) (pos + 0x1000#64) (mapped ++ [(start, page)])
  else (.ok (), mapped)
termination_by size
decreasing_by split <;> omega

def pmemMmap (vmallocToPfn : BitVec 64 → Nat) (refused : Nat → Bool) (vma : Vma) :
    Except MmapErrno Unit × List Mapping :=
  if ~~~0#64 >>> 12 < vma.vmPgoff then (.error .EINVAL, [])
  else
    mmapLoop vmallocToPfn refused 0 (vma.vmEnd - vma.vmStart).toNat vma.vmStart (vma.vmPgoff <<< 12) []

/-- The device position of page `k`. -/
def Vma.position (vma : Vma) (k : Nat) : BitVec 64 := vma.vmPgoff <<< 12 + BitVec.ofNat 64 (4096 * k)

/-- The user address of page `k`. -/
def Vma.page (vma : Vma) (k : Nat) : BitVec 64 := vma.vmStart + BitVec.ofNat 64 (4096 * k)

theorem add_page (base : BitVec 64) (k : Nat) :
    base + 0x1000#64 + BitVec.ofNat 64 (4096 * k) = base + BitVec.ofNat 64 (4096 * (k + 1)) := by
  have next : BitVec.ofNat 64 (4096 * (k + 1)) = 0x1000#64 + BitVec.ofNat 64 (4096 * k) := by
    rw [Nat.mul_succ, Nat.add_comm, BitVec.ofNat_add]
  rw [next, BitVec.add_assoc]

theorem mmapLoop_ok {vmallocToPfn : BitVec 64 → Nat} {refused : Nat → Bool} {pages round : Nat}
    {start pos : BitVec 64} {mapped all : List Mapping}
    (accepts : mmapLoop vmallocToPfn refused round (4096 * pages) start pos mapped = (.ok (), all)) :
    all = mapped ++ (List.range pages).map fun k =>
      (start + BitVec.ofNat 64 (4096 * k), vmallocToPfn (pos + BitVec.ofNat 64 (4096 * k))) := by
  induction pages generalizing round start pos mapped with
  | zero =>
    rw [mmapLoop, dif_neg (by omega)] at accepts
    cases accepts
    simp
  | succ pages ih =>
    have rest : (if 4096 * (pages + 1) > 0x1000 then 4096 * (pages + 1) - 0x1000 else 0) = 4096 * pages := by
      split <;> omega
    rw [mmapLoop, dif_pos (by omega), rest] at accepts
    dsimp only at accepts
    split at accepts
    · cases accepts
    · rw [ih accepts, List.append_assoc, List.range_succ_eq_map, List.map_cons, List.map_map]
      simp only [Nat.mul_zero, BitVec.add_zero, List.singleton_append, Function.comp_def, add_page,
        Nat.succ_eq_add_one]

/-- What `pmem_read` returns anywhere: the bytes of the page in the frame field of `f_pos`. -/
theorem pmemRead_frame {k : Kernel} {memory : Memory} (found : k.Finds memory) (filp : File)
    (count : Nat) :
    (pmemRead k filp count none memory).user =
      loadBytes (setPte memory k.pagedPte (windowEntry filp.fPos (pteVal memory k.pagedPte)))
        (frame filp.fPos * 4096 + filp.fPos.toNat % 4096) (copyLen filp.fPos count) := by
  rw [pmemRead_ok found (not_faults_none _), Kernel.loadWindow, Kernel.windowAddr,
    pteVal_setPte, frame_windowEntry, toNat_and_lowMask]

/-- Page `k` of the mapping is frame `P / 4096 + k`, which is the frame `pmem_read` takes its
    bytes from at `P + 4096 * k`. -/
def MapsWhatIsRead (vma : Vma) (pages : Nat) (mapped : List Mapping) : Prop :=
  ∀ k < pages, mapped[k]? = some (vma.page k, vma.vmPgoff.toNat + k) ∧
    frame (vma.position k) = vma.vmPgoff.toNat + k

theorem frame_position {vma : Vma} {pages k : Nat} (small : vma.vmPgoff.toNat < 2 ^ 52)
    (whole : (vma.vmEnd - vma.vmStart).toNat = 4096 * pages) (inside : k < pages) :
    frame (vma.position k) = vma.vmPgoff.toNat + k ↔ vma.vmPgoff.toNat + k < 2 ^ 40 := by
  have top := (vma.vmEnd - vma.vmStart).isLt
  have place : (vma.position k).toNat = (4096 * vma.vmPgoff.toNat + 4096 * k) % 2 ^ 64 := by
    rw [Vma.position, BitVec.toNat_add, BitVec.toNat_shiftLeft, Nat.shiftLeft_eq, BitVec.toNat_ofNat]
    omega
  rw [toNat_frame, place]
  constructor <;> intro _ <;> omega

/-- A mapping that is accepted agrees with `pmem_read` exactly when the kernel's page tables
    map each of its positions, taken as a virtual address, to itself, and the positions are
    below 2^52; what `pmem_read` takes its bytes from is the page in the frame field of the
    position. -/
theorem mmap_agrees_iff (k : Kernel) {vmallocToPfn : BitVec 64 → Nat} {refused : Nat → Bool} {vma : Vma}
    {pages : Nat} {mapped : List Mapping} (whole : (vma.vmEnd - vma.vmStart).toNat = 4096 * pages)
    (accepts : pmemMmap vmallocToPfn refused vma = (.ok (), mapped)) :
    (MapsWhatIsRead vma pages mapped ↔
      ∀ i < pages, vmallocToPfn (vma.position i) = vma.vmPgoff.toNat + i ∧
        vma.vmPgoff.toNat + i < 2 ^ 40) ∧
    ∀ i count memory, k.Finds memory →
      (pmemRead k { fPos := vma.position i } count none memory).user =
        loadBytes (setPte memory k.pagedPte (windowEntry (vma.position i) (pteVal memory k.pagedPte)))
          (frame (vma.position i) * 4096 + (vma.position i).toNat % 4096)
          (copyLen (vma.position i) count) := by
  refine ⟨?_, fun i count memory found => pmemRead_frame found _ count⟩
  unfold pmemMmap at accepts
  split at accepts
  · cases accepts
  · rename_i admitted
    have small : vma.vmPgoff.toNat < 2 ^ 52 := by
      rw [BitVec.lt_def] at admitted
      have limit : (~~~0#64 >>> 12).toNat = 2 ^ 52 - 1 := by decide
      omega
    rw [whole] at accepts
    have pagesMapped := mmapLoop_ok accepts
    rw [List.nil_append] at pagesMapped
    have entry : ∀ i < pages, mapped[i]? = some (vma.page i, vmallocToPfn (vma.position i)) := by
      intro i inside
      rw [pagesMapped, List.getElem?_map, List.getElem?_range inside]
      rfl
    constructor
    · intro agrees i inside
      obtain ⟨mapping, read⟩ := agrees i inside
      rw [entry i inside, Option.some.injEq, Prod.mk.injEq] at mapping
      exact ⟨mapping.2, (frame_position small whole inside).mp read⟩
    · intro identity i inside
      obtain ⟨same, low⟩ := identity i inside
      exact ⟨by rw [entry i inside, same], (frame_position small whole inside).mpr low⟩

/-- One page at file offset `0x200000`. -/
def sampleVma : Vma where
  vmStart := 0x7f0000000000#64
  vmEnd := 0x7f0000001000#64
  vmPgoff := 0x200#64

theorem sampleVma_accepted (vmallocToPfn : BitVec 64 → Nat) :
    pmemMmap vmallocToPfn (fun _ => false) sampleVma =
      (.ok (), [(0x7f0000000000#64, vmallocToPfn 0x200000#64)]) := by
  have size : (sampleVma.vmEnd - sampleVma.vmStart).toNat = 0x1000 := by decide
  have admitted : ¬ ~~~0#64 >>> 12 < sampleVma.vmPgoff := by decide
  rw [pmemMmap, if_neg admitted, size, mmapLoop, dif_pos (by decide), if_neg (by decide),
    if_neg (by decide), mmapLoop, dif_neg (by decide)]
  rfl

/-- A kernel that maps virtual address `0x200000` to frame `0x12345`. -/
theorem mmap_differs_from_read :
    ∃ mapped, pmemMmap (fun _ => 0x12345) (fun _ => false) sampleVma = (.ok (), mapped) ∧
      ¬ MapsWhatIsRead sampleVma 1 mapped := by
  refine ⟨_, sampleVma_accepted _, fun agrees => ?_⟩
  exact absurd (agrees 0 (by decide)).1 (by decide)

/-- A kernel that maps it to itself, and a read of four bytes of the page. -/
theorem mmap_agrees_sample :
    MapsWhatIsRead sampleVma 1 [(0x7f0000000000#64, 0x200)] ∧
      (pmemRead sampleKernel { fPos := sampleVma.position 0 } 4 none sampleMemory).user = [0, 0, 0, 0] := by
  obtain ⟨agrees, reads⟩ := mmap_agrees_iff sampleKernel (by decide : _ = 4096 * 1)
    (sampleVma_accepted fun v => v.toNat / 4096)
  refine ⟨agrees.mpr fun i inside => ?_, ?_⟩
  · obtain rfl : i = 0 := by omega
    decide
  · rw [reads 0 4 sampleMemory sampleMemory_finds]
    decide

end TestPrograms.Devmem
