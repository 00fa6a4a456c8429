import TestPrograms.Devmem.Position
import TestPrograms.Devmem.Unmapped
import TestPrograms.Foundations.Files

/-! # The devices as files

An open device as a program sees it that seeks and then transfers one byte: what a position
shows and where a byte is stored.  The kernel hands the driver a transfer only at the
positions it admits; at the others the call fails before.
-/

namespace TestPrograms.Devmem

open TestPrograms.Foundations
open TestPrograms.Foundations.Memory
open TestPrograms.Linux

def Device.llseek (dev : Device) (flip : File) (offset : BitVec 64) (whence : Whence) :
    File × BitVec 64 :=
  match dev with
  | .pmem => pmemLlseek flip offset whence
  | .kmem => kmemLlseek flip offset whence

/-- Where `f_pos` is after a seek to `address`. -/
def Device.position : Device → BitVec 64 → BitVec 64
  | .pmem, address => address
  | .kmem, address => positionOf address

/-- One-byte transfers on an open device.  `admits` are the positions at which the kernel calls
    the driver; the byte of the user is always there. -/
def Device.openFile (dev : Device) (k : Kernel) (admits : BitVec 64 → Bool) :
    OpenFile Opened (BitVec 64) Byte Oops where
  lseek s address := { s with filp := (dev.llseek s.filp address .seekSet).1 }
  read s :=
    if admits s.filp.fPos then
      (access dev k s (.plain (.read 1 none))).map fun (done, s) => (done.user.head?, s)
    else .ok (none, s)
  write s byte :=
    if admits s.filp.fPos then (access dev k s (.plain (.write [byte] none))).map Prod.snd
    else .ok s

/-- `phy_addr` of the drivers: for `pmem` the position itself. -/
def Device.phyAddr (dev : Device) (k : Kernel) (memory : Memory) (fPos : BitVec 64) :
    Except Oops (BitVec 64) :=
  match dev with
  | .pmem => .ok fPos
  | .kmem => kmemPhyAddr k memory (kmemAddr fPos)

/-- The byte of physical memory that is `offset` behind the start of the page of `phyAddr`. -/
def byteOf (phyAddr fPos : BitVec 64) : Nat := frame phyAddr * 4096 + fPos.toNat % 4096

/-- What an address shows, through the window that a read opens, and what a write leaves. -/
def Device.store (dev : Device) (k : Kernel) (admits : BitVec 64 → Bool) :
    Store Memory (BitVec 64) Byte where
  shown memory address :=
    let fPos := dev.position address
    match admits fPos, dev.phyAddr k memory fPos with
    | true, .ok phyAddr =>
      some (setPte memory k.pagedPte (windowEntry phyAddr (pteVal memory k.pagedPte))
        (byteOf phyAddr fPos))
    | _, _ => none
  stored memory address byte :=
    let fPos := dev.position address
    match admits fPos, dev.phyAddr k memory fPos with
    | true, .ok phyAddr => Function.update memory (byteOf phyAddr fPos) byte
    | _, _ => memory

/-- The byte at the address is not in the page of the entry that the driver rewrites. -/
def Device.Spares (dev : Device) (k : Kernel) (memory : Memory) (address : BitVec 64) : Prop :=
  ∀ phyAddr, dev.phyAddr k memory (dev.position address) = .ok phyAddr →
    frame phyAddr ≠ k.pagedPte / 4096

theorem Device.llseek_fPos (dev : Device) (flip : File) (address : BitVec 64) :
    (dev.llseek flip address .seekSet).1.fPos = dev.position address := by
  cases dev <;> rfl

theorem copyLen_one (fPos : BitVec 64) : copyLen fPos 1 = 1 := by
  rw [copyLen_eq]
  omega

theorem byteOf_page (phyAddr fPos : BitVec 64) :
    (frame phyAddr * 4096 + fPos.toNat % 4096) / 4096 = frame phyAddr := by
  omega

section

variable {dev : Device} {k : Kernel} {memory : Memory} (found : k.Finds memory)

include found

theorem Device.transfer_read {filp : File} {ppos after : BitVec 64} {done : Transfer}
    (transfers : dev.transfer k (.read 1 none) filp ppos memory = .ok (done, after)) :
    ∃ phyAddr, dev.phyAddr k memory filp.fPos = .ok phyAddr ∧ done.memory = memory ∧
      done.user.head? = some (setPte memory k.pagedPte (windowEntry phyAddr (pteVal memory k.pagedPte))
        (byteOf phyAddr filp.fPos)) := by
  cases dev with
  | pmem =>
    cases transfers
    refine ⟨filp.fPos, rfl, ?_⟩
    rw [pmemRead_ok found (not_faults_none _), copyLen_one, Kernel.loadWindow,
      Kernel.windowAddr, pteVal_setPte, frame_windowEntry, toNat_and_lowMask]
    exact ⟨rfl, rfl⟩
  | kmem =>
    cases target : kmemPhyAddr k memory (kmemAddr filp.fPos) with
    | error oops =>
      simp only [Device.transfer, kmemRead, target, Except.map, reduceCtorEq] at transfers
    | ok phyAddr =>
      have ends := kmemRead_ok found target (not_faults_none (copyLen filp.fPos 1))
      simp only [Device.transfer, ends, Except.map] at transfers
      cases transfers
      refine ⟨phyAddr, target, rfl, ?_⟩
      rw [copyLen_one, Kernel.loadWindow, Kernel.windowAddr, pteVal_setPte, frame_windowEntry,
        toNat_and_lowMask]
      rfl

theorem Device.transfer_write {filp : File} {ppos after : BitVec 64} {byte : Byte} {done : Transfer}
    (transfers : dev.transfer k (.write [byte] none) filp ppos memory = .ok (done, after)) :
    ∃ phyAddr, dev.phyAddr k memory filp.fPos = .ok phyAddr ∧
      (frame phyAddr ≠ k.pagedPte / 4096 →
        done.memory = Function.update memory (byteOf phyAddr filp.fPos) byte) := by
  have one : [byte].take (copyLen filp.fPos [byte].length) = [byte] := by
    rw [List.length_singleton, copyLen_one]
    rfl
  cases dev with
  | pmem =>
    cases transfers
    refine ⟨filp.fPos, rfl, fun spared => ?_⟩
    rw [pmemWrite_ok found (not_faults_none _)]
    dsimp only
    rw [store_take_at (by rwa [byteOf_page]), one]
    rfl
  | kmem =>
    cases target : kmemPhyAddr k memory (kmemAddr filp.fPos) with
    | error oops =>
      simp only [Device.transfer, kmemWrite, target, Except.map, reduceCtorEq] at transfers
    | ok phyAddr =>
      have ends := kmemWrite_ok found target
        (not_faults_none (copyLen filp.fPos [byte].length))
      simp only [Device.transfer, ends, Except.map] at transfers
      cases transfers
      refine ⟨phyAddr, target, fun spared => ?_⟩
      dsimp only
      rw [store_take_at (by rwa [byteOf_page]), one]
      rfl

omit found in
/-- Behind a seek the device shows and stores what its store says, where the walk finds the entry
    of `paged_buf`. -/
theorem Device.openFile_refines (dev : Device) (k : Kernel) (admits : BitVec 64 → Bool) :
    (dev.openFile k admits).Refines (dev.store k admits) Opened.memory k.Finds (dev.Spares k) where
  read := by
    intro f g address item found returns
    simp only [Device.openFile, dev.llseek_fPos] at returns
    simp only [Device.store]
    split at returns
    · rename_i admitted
      obtain ⟨⟨done, next⟩, reads, same⟩ := map_ok.mp returns
      cases same
      obtain ⟨rfl, ppos, transfers⟩ := access_inv reads
      obtain ⟨phyAddr, target, kept, byte⟩ := Device.transfer_read found transfers
      rw [dev.llseek_fPos] at target byte
      rw [admitted, target, byte]
      exact ⟨rfl, kept⟩
    · rename_i refused
      cases returns
      rw [Bool.not_eq_true] at refused
      rw [refused]
      exact ⟨rfl, rfl⟩
  write := by
    intro f g address item found spares returns
    simp only [Device.openFile, dev.llseek_fPos] at returns
    simp only [Device.store]
    split at returns
    · rename_i admitted
      obtain ⟨⟨done, next⟩, writes, same⟩ := map_ok.mp returns
      cases same
      obtain ⟨rfl, ppos, transfers⟩ := access_inv writes
      obtain ⟨phyAddr, target, stored⟩ := Device.transfer_write found transfers
      rw [dev.llseek_fPos] at target stored
      rw [admitted, target]
      exact stored (spares phyAddr target)
    · rename_i refused
      cases returns
      rw [Bool.not_eq_true] at refused
      rw [refused]

end

/-! ## `/dev/pmem` -/

theorem pmem_returns (k : Kernel) (admits : BitVec 64 → Bool) :
    (Device.pmem.openFile k admits).Returns where
  read := by
    intro f address
    simp only [Device.openFile]
    split
    · exact ⟨_, rfl⟩
    · exact ⟨_, rfl⟩
  write := by
    intro f address item
    simp only [Device.openFile]
    split
    · exact ⟨_, rfl⟩
    · exact ⟨_, rfl⟩

/-- The physical address of a position of `pmem`: the frame field of an entry has 40 bits. -/
theorem byteOf_self (fPos : BitVec 64) : byteOf fPos fPos = fPos.toNat % 2 ^ 52 := by
  rw [byteOf, toNat_frame]
  omega

theorem pmem_stored (k : Kernel) (admits : BitVec 64 → Bool) (memory : Memory) (address : BitVec 64)
    (byte : Byte) : (Device.pmem.store k admits).stored memory address byte =
      if admits address then Function.update memory (address.toNat % 2 ^ 52) byte else memory := by
  rw [← byteOf_self]
  simp only [Device.store, Device.position, Device.phyAddr]
  cases admits address <;> rfl

theorem pmem_shown {k : Kernel} {admits : BitVec 64 → Bool} (memory : Memory) {address : BitVec 64}
    (admitted : admits address) (spared : address.toNat / 4096 % 2 ^ 40 ≠ k.pagedPte / 4096) :
    (Device.pmem.store k admits).shown memory address = some (memory (address.toNat % 2 ^ 52)) := by
  have aligned := k.aligned
  rw [← byteOf_self]
  simp only [Device.store, Device.position, Device.phyAddr, admitted]
  congr 1
  refine setPte_frame _ _ _ _ ?_
  rw [byteOf_self]
  omega

/-- Bytes stored at consecutive addresses, none of them beyond the last frame. -/
theorem pmem_storeAll {k : Kernel} {admits : BitVec 64 → Bool} (bytes : List Byte)
    (address : BitVec 64) (memory : Memory) (low : address.toNat + bytes.length ≤ 2 ^ 52)
    (admitted : ∀ i < bytes.length, admits (address + BitVec.ofNat 64 i)) :
    (Device.pmem.store k admits).storeAll memory
        (bytes.mapIdx fun i byte => (address + BitVec.ofNat 64 i, byte)) =
      storeBytes memory address.toNat bytes := by
  induction bytes generalizing address memory with
  | nil => rfl
  | cons byte bytes ih =>
    rw [List.length_cons] at low admitted
    have first := admitted 0 (Nat.zero_lt_succ _)
    rw [show address + BitVec.ofNat 64 0 = address from BitVec.add_zero _] at first
    have next : (address + 1#64).toNat = address.toNat + 1 := by
      rw [BitVec.toNat_add, BitVec.toNat_ofNat]
      omega
    have shift : (fun i (byte : Byte) => (address + BitVec.ofNat 64 (i + 1), byte)) =
        fun i byte => (address + 1#64 + BitVec.ofNat 64 i, byte) := by
      funext i byte
      rw [BitVec.add_assoc, ← BitVec.ofNat_add, Nat.add_comm]
    have rest := ih (address + 1#64) (Function.update memory address.toNat byte)
      (by omega) fun i below => by
        have later := admitted (i + 1) (by omega)
        rwa [Nat.add_comm, BitVec.ofNat_add, ← BitVec.add_assoc] at later
    rw [next] at rest
    rw [List.mapIdx_cons, shift, storeBytes, ← rest]
    have here := pmem_stored k admits memory address byte
    rw [first, if_pos rfl, Nat.mod_eq_of_lt (by omega)] at here
    rw [← here]
    simp only [Store.storeAll, List.foldl_cons, BitVec.add_zero]

/-! ## `/dev/kmem` -/

/-- A transfer of `kmem` returns where the driver is only called for addresses it can translate. -/
theorem kmem_returns {k : Kernel} {admits : BitVec 64 → Bool}
    (translates : ∀ memory fPos, admits fPos →
      ∃ phyAddr, kmemPhyAddr k memory (kmemAddr fPos) = .ok phyAddr) :
    (Device.kmem.openFile k admits).Returns := by
  constructor
  · intro f address
    simp only [Device.openFile]
    split
    · rename_i admitted
      obtain ⟨phyAddr, target⟩ := translates f.memory _ admitted
      obtain ⟨done, ends, returns⟩ := kmemRead_returns target (not_faults_none (copyLen _ 1))
      simp only [access, Device.transfer, ends, Except.map, returns]
      exact ⟨_, rfl⟩
    · exact ⟨_, rfl⟩
  · intro f address item
    simp only [Device.openFile]
    split
    · rename_i admitted
      obtain ⟨phyAddr, target⟩ := translates f.memory _ admitted
      obtain ⟨done, ends, returns⟩ := kmemWrite_returns target (not_faults_none (copyLen _ [item].length))
      simp only [access, Device.transfer, ends, Except.map, returns]
      exact ⟨_, rfl⟩
    · exact ⟨_, rfl⟩

end TestPrograms.Devmem
