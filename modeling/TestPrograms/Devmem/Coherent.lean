import Mathlib.Data.List.Induction
import TestPrograms.Devmem.Mmap
import TestPrograms.Devmem.Region

/-! # `kmem` read, written and mapped

A process that has mapped a part of `/dev/kmem` reaches its bytes in two ways: through calls of the
driver, which go through its window, and through its own page tables.  On a mapped region of the
kernel both ways are to one memory.
-/

namespace TestPrograms.Devmem

open TestPrograms.Foundations
open TestPrograms.Foundations.Memory
open TestPrograms.Linux

/-- `kmem_mmap` is `pmem_mmap` word for word. -/
def kmemMmap (vmallocToPfn : BitVec 64 → Nat) (refused : Nat → Bool) (vma : Vma) :
    Except MmapErrno Unit × List Mapping :=
  pmemMmap vmallocToPfn refused vma

/-! ## The process -/

/-- A byte range by the device, or a byte of the mapping. -/
inductive Use where
  | read (v : BitVec 64) (count : Nat)
  | write (v : BitVec 64) (buf : List Byte)
  | load (u : BitVec 64)
  | store (u : BitVec 64) (byte : Byte)

structure Process where
  memory : Memory
  filp : File
  -- what the reads and loads have given, oldest first
  seen : List (List Byte)

inductive Trap where
  | oops (oops : Oops)
  | segv
  deriving DecidableEq, Repr

/-- The physical address that the process's page tables have for `u`. -/
def userPhysical (mapped : List Mapping) (u : BitVec 64) : Option Nat :=
  (mapped.find? fun mapping => mapping.1 = u &&& pageMask).map fun mapping =>
    mapping.2 * 4096 + u.toNat % 4096

/-- A call is made behind a seek. -/
def Process.use (k : Kernel) (mapped : List Mapping) (s : Process) : Use → Except Trap Process
  | .read v count =>
    let filp := (kmemLlseek s.filp v .seekSet).1
    match kmemRead k filp count none s.memory with
    | .error oops => .error (.oops oops)
    | .ok done => .ok { memory := done.memory, filp, seen := s.seen ++ [done.user] }
  | .write v buf =>
    let filp := (kmemLlseek s.filp v .seekSet).1
    match kmemWrite k filp buf none s.memory with
    | .error oops => .error (.oops oops)
    | .ok done => .ok { s with memory := done.memory, filp }
  | .load u =>
    match userPhysical mapped u with
    | none => .error .segv
    | some a => .ok { s with seen := s.seen ++ [[s.memory a]] }
  | .store u byte =>
    match userPhysical mapped u with
    | none => .error .segv
    | some a => .ok { s with memory := Function.update s.memory a byte }

/-! ## The one memory -/

/-- The kernel address that user address `u` is mapped to. -/
def Vma.kernelAddr (vma : Vma) (u : BitVec 64) : BitVec 64 := vma.vmPgoff <<< 12 + (u - vma.vmStart)

/-- A transfer ends with the page it begins in. -/
def inPage (v : BitVec 64) (count : Nat) : Nat := min count (4096 - v.toNat % 4096)

/-- The bytes stored, oldest first, at their kernel addresses. -/
def Use.stores (vma : Vma) : Use → List (BitVec 64 × Byte)
  | .write v buf => (buf.take (inPage v buf.length)).mapIdx fun i byte => (v + BitVec.ofNat 64 i, byte)
  | .store u byte => [(vma.kernelAddr u, byte)]
  | .read .. | .load _ => []

/-- The kernel addresses whose bytes are given back. -/
def Use.reads (vma : Vma) : Use → Option (List (BitVec 64))
  | .read v count => some ((List.range (inPage v count)).map fun i => v + BitVec.ofNat 64 i)
  | .load u => some [vma.kernelAddr u]
  | .write .. | .store .. => none

section

variable (frames : BitVec 64 → Nat) (memory : Memory)

/-- The byte last stored where `v` is, or the one that was there. -/
def holds (stored : List (BitVec 64 × Byte)) (v : BitVec 64) : Byte :=
  ((stored.reverse.find? fun store => physical frames store.1 = physical frames v).map Prod.snd).getD
    (memory (physical frames v))

/-- What a run gives back, after `stored`. -/
def shownAfter (vma : Vma) (stored : List (BitVec 64 × Byte)) : List Use → List (List Byte)
  | [] => []
  | use :: uses =>
    ((use.reads vma).map fun addresses => addresses.map (holds frames memory stored)).toList ++
      shownAfter vma (stored ++ use.stores vma) uses

def storeAt (store : BitVec 64 × Byte) : Memory :=
  Function.update memory (physical frames store.1) store.2

/-- Memory after the stores. -/
def storeEach (stored : List (BitVec 64 × Byte)) : Memory := stored.foldl (storeAt frames) memory

theorem storeEach_append (first second : List (BitVec 64 × Byte)) :
    storeEach frames memory (first ++ second) = storeEach frames (storeEach frames memory first) second :=
  List.foldl_append

theorem storeEach_holds (stored : List (BitVec 64 × Byte)) (v : BitVec 64) :
    storeEach frames memory stored (physical frames v) = holds frames memory stored v := by
  induction stored using List.reverseRecOn with
  | nil => rfl
  | append_singleton stored store ih =>
    rw [storeEach_append, holds, List.reverse_append, List.reverse_singleton, List.singleton_append,
      List.find?_cons]
    by_cases here : physical frames store.1 = physical frames v
    · simp [storeEach, storeAt, here]
    · have elsewhere : physical frames v ≠ physical frames store.1 := fun same => here same.symm
      simpa [storeEach, storeAt, here, elsewhere, holds] using ih

end

/-! ## Mapped pages -/

/-- A region of whole pages, of which `vmalloc_to_pfn` says what the page walk says. -/
structure Paged (k : Kernel) (memory : Memory) (region : Set (BitVec 64)) (frames : BitVec 64 → Nat)
    (vmallocToPfn : BitVec 64 → Nat) : Prop where
  mapped : Mapped k memory region frames
  whole : ∀ v ∈ region, ∀ w : BitVec 64, w.toNat / 4096 = v.toNat / 4096 → w ∈ region
  pfn : ∀ v ∈ region, vmallocToPfn (v &&& pageMask) = frames v

/-- The kernel makes areas of whole pages. -/
structure Vma.Whole (vma : Vma) (pages : Nat) : Prop where
  aligned : vma.vmStart.toNat % 4096 = 0
  size : (vma.vmEnd - vma.vmStart).toNat = 4096 * pages

/-- The use stays in the region, and loads and stores in the area. -/
def Use.Within (vma : Vma) (pages : Nat) (region : Set (BitVec 64)) : Use → Prop
  | .read v _ | .write v _ => v ∈ region
  | .load u | .store u _ => ∃ i < 4096 * pages, u = vma.vmStart + BitVec.ofNat 64 i

theorem loadBytes_eq_map (memory : Memory) (address count : Nat) :
    loadBytes memory address count = (List.range count).map fun i => memory (address + i) := by
  apply List.ext_getElem (by simp)
  intro i bound _
  rw [loadBytes_getElem, List.getElem_map, List.getElem_range]

theorem storeBytes_append_singleton (memory : Memory) (address : Nat) (bytes : List Byte) (byte : Byte) :
    storeBytes memory address (bytes ++ [byte]) =
      Function.update (storeBytes memory address bytes) (address + bytes.length) byte := by
  induction bytes generalizing memory address with
  | nil => rfl
  | cons first bytes ih =>
    rw [List.cons_append, storeBytes, ih, storeBytes, List.length_cons, Nat.add_assoc, Nat.add_comm 1]

section

variable {frames : BitVec 64 → Nat} {v : BitVec 64}

/-- Within a page the physical addresses go up with the virtual ones. -/
theorem physical_add {i : Nat} (inside : v.toNat % 4096 + i < 4096)
    (same : frames (v + BitVec.ofNat 64 i) = frames v) :
    physical frames (v + BitVec.ofNat 64 i) = physical frames v + i := by
  have top := v.isLt
  rw [physical, physical, same, BitVec.toNat_add, BitVec.toNat_ofNat]
  omega

theorem samePage {i : Nat} (inside : v.toNat % 4096 + i < 4096) :
    (v + BitVec.ofNat 64 i).toNat / 4096 = v.toNat / 4096 := by
  have top := v.isLt
  rw [BitVec.toNat_add, BitVec.toNat_ofNat]
  omega

theorem storeBytes_eq_storeEach (memory : Memory) (bytes : List Byte)
    (inside : v.toNat % 4096 + bytes.length ≤ 4096)
    (same : ∀ i < bytes.length, frames (v + BitVec.ofNat 64 i) = frames v) :
    storeBytes memory (physical frames v) bytes =
      storeEach frames memory (bytes.mapIdx fun i byte => (v + BitVec.ofNat 64 i, byte)) := by
  induction bytes using List.reverseRecOn with
  | nil => rfl
  | append_singleton bytes byte ih =>
    rw [List.length_append, List.length_singleton] at inside same
    have earlier := ih (by omega) fun i below => same i (by omega)
    have last := physical_add (by omega) (same bytes.length (by omega))
    rw [storeBytes_append_singleton, earlier, ← last, List.mapIdx_append, storeEach_append]
    simp [storeEach, storeAt]

end

/-! ## The page tables of the process -/

section

variable {vma : Vma} {pages : Nat}

theorem Vma.Whole.inArea (whole : vma.Whole pages) {i : Nat} (inside : i < 4096 * pages) : i < 2 ^ 64 := by
  have bound := (vma.vmEnd - vma.vmStart).isLt
  rw [whole.size] at bound
  omega

theorem Vma.kernelAddr_add (vma : Vma) (i : Nat) :
    vma.kernelAddr (vma.vmStart + BitVec.ofNat 64 i) = vma.vmPgoff <<< 12 + BitVec.ofNat 64 i := by
  rw [kernelAddr, BitVec.add_comm vma.vmStart, BitVec.add_sub_cancel]

theorem Vma.Whole.page_of (whole : vma.Whole pages) {i : Nat} (inside : i < 4096 * pages) (j : Nat)
    (below : j < pages) :
    vma.page j = (vma.vmStart + BitVec.ofNat 64 i) &&& pageMask ↔ j = i / 4096 := by
  have aligned := whole.aligned
  have small := whole.inArea inside
  have last := whole.inArea (i := 4096 * j) (by omega)
  have start := vma.vmStart.isLt
  rw [← BitVec.toNat_inj, toNat_and_pageMask, page, BitVec.toNat_add, BitVec.toNat_add, BitVec.toNat_ofNat,
    BitVec.toNat_ofNat]
  constructor
  · intro same
    omega
  · rintro rfl
    omega

theorem Vma.position_of (vma : Vma) (i : Nat) (small : i < 2 ^ 64) :
    vma.position (i / 4096) = (vma.vmPgoff <<< 12 + BitVec.ofNat 64 i) &&& pageMask := by
  have offset : (vma.vmPgoff <<< 12).toNat % 4096 = 0 := by
    rw [BitVec.toNat_shiftLeft, Nat.shiftLeft_eq]
    omega
  have start := (vma.vmPgoff <<< 12).isLt
  rw [← BitVec.toNat_inj, toNat_and_pageMask, position, BitVec.toNat_add, BitVec.toNat_add,
    BitVec.toNat_ofNat, BitVec.toNat_ofNat]
  omega

theorem kmemMmap_ok {vmallocToPfn : BitVec 64 → Nat} {refused : Nat → Bool} {mapped : List Mapping}
    (whole : vma.Whole pages) (accepts : kmemMmap vmallocToPfn refused vma = (.ok (), mapped)) :
    mapped = (List.range pages).map fun j => (vma.page j, vmallocToPfn (vma.position j)) := by
  rw [kmemMmap, pmemMmap] at accepts
  split at accepts
  · cases accepts
  · rw [whole.size] at accepts
    exact mmapLoop_ok accepts

theorem userPhysical_area {k : Kernel} {memory : Memory} {region : Set (BitVec 64)}
    {frames vmallocToPfn : BitVec 64 → Nat} {refused : Nat → Bool} {mapped : List Mapping}
    (paged : Paged k memory region frames vmallocToPfn) (whole : vma.Whole pages)
    (accepts : kmemMmap vmallocToPfn refused vma = (.ok (), mapped)) {i : Nat} (inside : i < 4096 * pages)
    (covered : vma.vmPgoff <<< 12 + BitVec.ofNat 64 i ∈ region) :
    userPhysical mapped (vma.vmStart + BitVec.ofNat 64 i) =
      some (physical frames (vma.vmPgoff <<< 12 + BitVec.ofNat 64 i)) := by
  have small := whole.inArea inside
  have page : (List.range pages).find? (fun j =>
      vma.page j = (vma.vmStart + BitVec.ofNat 64 i) &&& pageMask) = some (i / 4096) := by
    rw [List.find?_range_eq_some]
    refine ⟨decide_eq_true ((whole.page_of inside _ (by omega)).mpr rfl), by simp; omega, fun j below => ?_⟩
    have other : ¬ vma.page j = (vma.vmStart + BitVec.ofNat 64 i) &&& pageMask := fun same =>
      Nat.ne_of_lt below ((whole.page_of inside j (by omega)).mp same)
    simpa using other
  have aligned := whole.aligned
  have offset : (vma.vmPgoff <<< 12).toNat % 4096 = 0 := by
    rw [BitVec.toNat_shiftLeft, Nat.shiftLeft_eq]
    omega
  have low : (vma.vmStart + BitVec.ofNat 64 i).toNat % 4096 =
      (vma.vmPgoff <<< 12 + BitVec.ofNat 64 i).toNat % 4096 := by
    rw [BitVec.toNat_add, BitVec.toNat_add, BitVec.toNat_ofNat]
    omega
  rw [userPhysical, kmemMmap_ok whole accepts, List.find?_map, Function.comp_def, page]
  simp only [Option.map_some, Option.some.injEq]
  rw [physical, vma.position_of i small, paged.pfn _ covered, low]

end

/-! ## One use -/

theorem Agrees.storeEach {region : Set (BitVec 64)} {frames : BitVec 64 → Nat} {memory other : Memory}
    (agrees : Agrees region frames memory other) {stored : List (BitVec 64 × Byte)}
    (inside : ∀ store ∈ stored, store.1 ∈ region) :
    Agrees region frames memory (storeEach frames other stored) := by
  induction stored generalizing other with
  | nil => exact agrees
  | cons store stored ih =>
    exact ih (agrees.update (inside store List.mem_cons_self) store.2) fun later member =>
      inside later (List.mem_cons_of_mem _ member)

theorem copyLen_positionOf (v : BitVec 64) (count : Nat) :
    copyLen (positionOf v) count = inPage v count := by
  rw [copyLen_eq, toNat_positionOf, inPage]
  omega

theorem inPage_le (v : BitVec 64) (count : Nat) : v.toNat % 4096 + inPage v count ≤ 4096 := by
  rw [inPage]
  omega

section

variable {k : Kernel} {region : Set (BitVec 64)} {frames vmallocToPfn : BitVec 64 → Nat}
  {memory other : Memory}

theorem Paged.page_frame (paged : Paged k memory region frames vmallocToPfn) {v : BitVec 64}
    (member : v ∈ region) {i : Nat} (inside : v.toNat % 4096 + i < 4096) :
    v + BitVec.ofNat 64 i ∈ region ∧ frames (v + BitVec.ofNat 64 i) = frames v := by
  have page := samePage inside
  have among := paged.whole v member _ page
  refine ⟨among, ?_⟩
  rw [← paged.pfn _ among, ← paged.pfn v member]
  congr 1
  rw [← BitVec.toNat_inj, toNat_and_pageMask, toNat_and_pageMask, page]

variable (paged : Paged k memory region frames vmallocToPfn)
  (agrees : Agrees region frames memory other)

include paged agrees

theorem kmemRead_paged {v : BitVec 64} (member : v ∈ region) (filp : File) (count : Nat) :
    ∃ done, kmemRead k (kmemLlseek filp v .seekSet).1 count none other = .ok done ∧
      done.memory = other ∧
      done.user = (List.range (inPage v count)).map fun i =>
        other (physical frames (v + BitVec.ofNat 64 i)) := by
  obtain ⟨phyAddr, translates, behind⟩ := paged.mapped.phyAddr agrees member
  have target : kmemPhyAddr k other (kmemAddr (positionOf v)) = .ok phyAddr := translates
  refine ⟨_, kmemRead_ok (paged.mapped.found other agrees) target (not_faults_none _), rfl, ?_⟩
  show k.loadWindow _ (positionOf v &&& 0xfff#64).toNat (copyLen (positionOf v) count) = _
  rw [toNat_positionOf_and_lowMask, copyLen_positionOf, Kernel.loadWindow, Kernel.windowAddr,
    pteVal_setPte, frame_windowEntry, behind,
    loadBytes_installed (paged.mapped.spared v member) (inPage_le v count), loadBytes_eq_map]
  refine List.map_congr_left fun i below => ?_
  have bound := inPage_le v count
  have inside : v.toNat % 4096 + i < 4096 := by
    rw [List.mem_range] at below
    omega
  rw [physical_add inside (paged.page_frame member inside).2, physical]

theorem kmemWrite_paged {v : BitVec 64} (member : v ∈ region) (filp : File) (buf : List Byte) :
    ∃ done, kmemWrite k (kmemLlseek filp v .seekSet).1 buf none other = .ok done ∧
      done.memory = storeEach frames other
        ((buf.take (inPage v buf.length)).mapIdx fun i byte => (v + BitVec.ofNat 64 i, byte)) := by
  obtain ⟨phyAddr, translates, behind⟩ := paged.mapped.phyAddr agrees member
  have target : kmemPhyAddr k other (kmemAddr (positionOf v)) = .ok phyAddr := translates
  refine ⟨_, kmemWrite_ok (paged.mapped.found other agrees) target (not_faults_none _), ?_⟩
  have entry : frame (writeEntry phyAddr (pteVal other k.pagedPte)) = frames v := by
    rw [frame_writeEntry, behind]
  have bound := inPage_le v buf.length
  have length : (buf.take (inPage v buf.length)).length ≤ inPage v buf.length := by
    rw [List.length_take]
    exact Nat.min_le_left _ _
  show setPte (k.storeWindow _ (positionOf v &&& 0xfff#64).toNat
    (buf.take (copyLen (positionOf v) buf.length))) _ _ = _
  rw [toNat_positionOf_and_lowMask, copyLen_positionOf,
    Kernel.store_restored k other (entry.symm ▸ paged.mapped.spared v member) (by omega), entry,
    ← storeBytes_eq_storeEach other _ (by omega), physical]
  intro i below
  exact (paged.page_frame member (by omega)).2

end

/-- The device and the area of a process, on one region. -/
structure Views (k : Kernel) (memory : Memory) (region : Set (BitVec 64)) (frames : BitVec 64 → Nat)
    (vma : Vma) (pages : Nat) (mapped : List Mapping) : Prop where
  whole : vma.Whole pages
  covered : ∀ i < 4096 * pages, vma.vmPgoff <<< 12 + BitVec.ofNat 64 i ∈ region
  accepted : ∃ vmallocToPfn refused, Paged k memory region frames vmallocToPfn ∧
    kmemMmap vmallocToPfn refused vma = (.ok (), mapped)

section

variable {k : Kernel} {memory : Memory} {region : Set (BitVec 64)} {frames : BitVec 64 → Nat} {vma : Vma}
  {pages : Nat} {mapped : List Mapping}

theorem Views.user (views : Views k memory region frames vma pages mapped) {u : BitVec 64}
    (within : ∃ i < 4096 * pages, u = vma.vmStart + BitVec.ofNat 64 i) :
    userPhysical mapped u = some (physical frames (vma.kernelAddr u)) ∧ vma.kernelAddr u ∈ region := by
  obtain ⟨i, inside, rfl⟩ := within
  obtain ⟨vmallocToPfn, refused, paged, accepts⟩ := views.accepted
  have covered := views.covered i inside
  rw [Vma.kernelAddr_add]
  exact ⟨userPhysical_area paged views.whole accepts inside covered, covered⟩

theorem Views.stores_inside (views : Views k memory region frames vma pages mapped) {use : Use}
    (within : use.Within vma pages region) : ∀ store ∈ use.stores vma, store.1 ∈ region := by
  obtain ⟨vmallocToPfn, refused, paged, -⟩ := views.accepted
  cases use with
  | read | load => exact fun store member => absurd member List.not_mem_nil
  | store u byte =>
    intro store member
    obtain rfl := List.mem_singleton.mp member
    exact (views.user within).2
  | write v buf =>
    intro store member
    obtain ⟨i, below, rfl⟩ := List.mem_mapIdx.mp member
    have bound := inPage_le v buf.length
    rw [List.length_take] at below
    exact (paged.page_frame within (by omega)).1

/-- A use returns, with the bytes of the one memory, and stores to it. -/
theorem Views.use_spec (views : Views k memory region frames vma pages mapped) {use : Use}
    (within : use.Within vma pages region) {s : Process} (agrees : Agrees region frames memory s.memory) :
    ∃ next, s.use k mapped use = .ok next ∧ next.memory = storeEach frames s.memory (use.stores vma) ∧
      next.seen = s.seen ++ ((use.reads vma).map fun addresses =>
        addresses.map fun v => s.memory (physical frames v)).toList := by
  obtain ⟨vmallocToPfn, refused, paged, -⟩ := views.accepted
  cases use with
  | read v count =>
    obtain ⟨done, reads, kept, given⟩ := kmemRead_paged paged agrees within s.filp count
    have steps : s.use k mapped (.read v count) =
        .ok ⟨done.memory, (kmemLlseek s.filp v .seekSet).1, s.seen ++ [done.user]⟩ := by
      simp only [Process.use, reads]
    refine ⟨_, steps, kept, ?_⟩
    simp only [given, Use.reads, Option.map_some, Option.toList_some, List.map_map, Function.comp_def]
  | write v buf =>
    obtain ⟨done, writes, stored⟩ := kmemWrite_paged paged agrees within s.filp buf
    have steps : s.use k mapped (.write v buf) =
        .ok ⟨done.memory, (kmemLlseek s.filp v .seekSet).1, s.seen⟩ := by
      simp only [Process.use, writes]
    exact ⟨_, steps, stored, (List.append_nil _).symm⟩
  | load u =>
    obtain ⟨place, -⟩ := views.user within
    have steps : s.use k mapped (.load u) =
        .ok { s with seen := s.seen ++ [[s.memory (physical frames (vma.kernelAddr u))]] } := by
      simp only [Process.use, place]
    exact ⟨_, steps, rfl, rfl⟩
  | store u byte =>
    obtain ⟨place, -⟩ := views.user within
    have steps : s.use k mapped (.store u byte) =
        .ok { s with memory := storeAt frames s.memory (vma.kernelAddr u, byte) } := by
      simp only [Process.use, place, storeAt]
    exact ⟨_, steps, rfl, (List.append_nil _).symm⟩

/-! ## Runs -/

theorem Views.run_spec (views : Views k memory region frames vma pages mapped) {uses : List Use}
    (within : ∀ use ∈ uses, use.Within vma pages region) {stored : List (BitVec 64 × Byte)}
    (inside : ∀ store ∈ stored, store.1 ∈ region) {s : Process}
    (now : s.memory = storeEach frames memory stored) :
    ∃ final, run (Process.use k mapped) s uses = .ok final ∧
      final.memory = storeEach frames memory (stored ++ uses.flatMap (Use.stores vma)) ∧
      final.seen = s.seen ++ shownAfter frames memory vma stored uses := by
  induction uses generalizing s stored with
  | nil => exact ⟨s, rfl, by rw [now, List.flatMap_nil, List.append_nil], (List.append_nil _).symm⟩
  | cons use uses ih =>
    have first := within use List.mem_cons_self
    have agrees : Agrees region frames memory s.memory := by
      rw [now]
      exact Agrees.storeEach (fun _ _ => rfl) inside
    obtain ⟨next, steps, memory', seen⟩ := views.use_spec first agrees
    have now' : next.memory = storeEach frames memory (stored ++ use.stores vma) := by
      rw [memory', now, storeEach_append]
    have inside' : ∀ store ∈ stored ++ use.stores vma, store.1 ∈ region := by
      intro store member
      exact (List.mem_append.mp member).elim (inside store) (views.stores_inside first store)
    obtain ⟨final, runs, last, given⟩ := ih
      (fun later member => within later (List.mem_cons_of_mem _ member)) inside' now'
    refine ⟨final, (run_cons_ok uses steps).trans runs, ?_, ?_⟩
    · rw [last, List.flatMap_cons, List.append_assoc]
    · rw [given, seen, now, shownAfter, List.append_assoc]
      simp only [storeEach_holds]

/-- However reads, writes, loads and stores alternate, each returns, and those that give bytes back
    give the ones last stored, by either way; memory ends as the stores leave it. -/
theorem kmem_coherent (views : Views k memory region frames vma pages mapped) {uses : List Use}
    (within : ∀ use ∈ uses, use.Within vma pages region) (filp : File) :
    ∃ final, run (Process.use k mapped) { memory, filp, seen := [] } uses = .ok final ∧
      final.seen = shownAfter frames memory vma [] uses ∧
      (∀ v, final.memory (physical frames v) =
        holds frames memory (uses.flatMap (Use.stores vma)) v) ∧
      Agrees region frames memory final.memory := by
  obtain ⟨final, runs, last, seen⟩ := views.run_spec within
    (fun _ member => absurd member List.not_mem_nil) (s := { memory, filp, seen := [] }) rfl
  rw [List.nil_append] at last seen
  refine ⟨final, runs, seen, fun v => ?_, ?_⟩
  · rw [last, storeEach_holds]
  · rw [last]
    refine Agrees.storeEach (fun _ _ => rfl) fun store member => ?_
    obtain ⟨use, among, stores⟩ := List.mem_flatMap.mp member
    exact views.stores_inside (within use among) store stores

end

def kernelVma : Vma where
  vmStart := 0x7f0000000000#64
  vmEnd := 0x7f0000001000#64
  vmPgoff := 0xffffffff81000#64

theorem kernelVma_views : Views sampleKernel sampleMemory sampleRegion (fun _ => 0x1000) kernelVma 1
    [(0x7f0000000000#64, 0x1000)] where
  whole := ⟨by decide, by decide⟩
  covered i inside := by
    have place : (kernelVma.vmPgoff <<< 12 + BitVec.ofNat 64 i).toNat = 0xffffffff81000000 + i := by
      have first : (kernelVma.vmPgoff <<< 12).toNat = 0xffffffff81000000 := by decide
      rw [BitVec.toNat_add, BitVec.toNat_ofNat, first]
      omega
    constructor
    · omega
    · omega
  accepted := by
    refine ⟨fun _ => 0x1000, fun _ => false, ⟨sampleRegion_mapped fun _ _ _ => rfl, ?_, fun _ _ => rfl⟩, ?_⟩
    · intro v member w page
      obtain ⟨low, high⟩ := member
      constructor
      · omega
      · omega
    · have size : (kernelVma.vmEnd - kernelVma.vmStart).toNat = 0x1000 := by decide
      have admitted : ¬ ~~~0#64 >>> 12 < kernelVma.vmPgoff := by decide
      rw [kmemMmap, pmemMmap, if_neg admitted, size, mmapLoop, dif_pos (by decide), if_neg (by decide),
        if_neg (by decide), mmapLoop, dif_neg (by decide)]
      rfl

/-- A byte stored through the mapping and read by the device, and one the other way. -/
theorem kmem_coherent_sample :
    let uses : List Use := [.store 0x7f0000000010#64 0x42, .read 0xffffffff81000010#64 1,
      .write 0xffffffff81000011#64 [0x07], .load 0x7f0000000011#64]
    ∃ final, run (Process.use sampleKernel [(0x7f0000000000#64, 0x1000)]) ⟨sampleMemory, ⟨0⟩, []⟩ uses =
        .ok final ∧ final.seen = [[0x42], [0x07]] := by
  intro uses
  have within : ∀ use ∈ uses, use.Within kernelVma 1 sampleRegion := by
    simp only [uses, List.forall_mem_cons]
    exact ⟨⟨16, by decide, by decide⟩, ⟨by decide, by decide⟩, ⟨by decide, by decide⟩,
      ⟨17, by decide, by decide⟩, fun _ member => absurd member List.not_mem_nil⟩
  obtain ⟨final, runs, seen, -⟩ := kmem_coherent kernelVma_views within ⟨0⟩
  exact ⟨final, runs, seen.trans (by decide)⟩

end TestPrograms.Devmem
