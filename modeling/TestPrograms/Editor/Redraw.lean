import TestPrograms.Editor.Program

/-! # What a redraw shows

`display_memory` with the file it reads: a seek that fails leaves the position, a read that
fails leaves the position and `c`, and the cell is drawn from `c` all the same.  Every cell is
kept with the address it stands for and the one its byte was read from.
-/

namespace TestPrograms.Editor

open TestPrograms.Foundations

/-- What the device answers to the calls of one redraw, by the number of the cell: whether the
    seek succeeds, and the byte read at a position (`none` where the read fails). -/
structure Device where
  seek : Nat → Addr → Bool
  read : Nat → Addr → Option Byte

/-- `c` as it is drawn at an address, and where it was read (`none` where it never was). -/
structure Cell where
  address : Addr
  c : Byte
  source : Option Addr
  deriving DecidableEq, Repr

structure SourcedRow where
  label : List Char
  cells : List Cell
  deriving DecidableEq, Repr

/-- The position of the file and the variable `c`, between two cells. -/
structure Sweep where
  pos : Addr
  c : Byte
  source : Option Addr
  drawn : Nat
  deriving DecidableEq, Repr

def Sweep.readByte (device : Device) (address : Addr) (s : Sweep) : Sweep :=
  let pos := if device.seek s.drawn address then address else s.pos
  match device.read s.drawn pos with
  | some byte => { pos := pos + 1#64, c := byte, source := some pos, drawn := s.drawn + 1 }
  | none => { s with pos, drawn := s.drawn + 1 }

def sweepCells (device : Device) (addr : Addr) : Nat → Nat → Sweep → List Cell × Sweep
  | 0, _, s => ([], s)
  | count + 1, x, s =>
    let address := addr + BitVec.ofNat 64 x
    let s := s.readByte device address
    let (cells, last) := sweepCells device addr count (x + 1) s
    ({ address, c := s.c, source := s.source } :: cells, last)

def sweepRows (device : Device) (addr : Addr) : Nat → Nat → Sweep → List SourcedRow
  | 0, _, _ => []
  | count + 1, y, s =>
    let rowAddr := addr + BitVec.ofNat 64 (y <<< 4)
    let (cells, s) := sweepCells device rowAddr 16 0 s
    { label := hexText 16 rowAddr.toNat, cells } :: sweepRows device addr count (y + 1) s

/-- `display_memory`, on entry with the file at `pos` and `c` not initialised. -/
def sweepMemory (lines : BitVec 32) (device : Device) (pos : Addr) (c : Byte) (addr : Addr) :
    List SourcedRow :=
  sweepRows device (addr &&& 0xfffffffffffffff0#64) (lines.toInt - 5).toNat 0
    { pos, c, source := none, drawn := 0 }

def SourcedRow.row (r : SourcedRow) : Row where
  label := r.label
  hex := r.cells.map fun cell => drawCell cell.c
  ascii := r.cells.map fun cell => drawAscii cell.c

/-! ## One cell after the other -/

section

variable (device : Device) (addr : Addr)

theorem sweepCells_add (first second x : Nat) (s : Sweep) :
    sweepCells device addr (first + second) x s =
      ((sweepCells device addr first x s).1 ++
          (sweepCells device addr second (x + first) (sweepCells device addr first x s).2).1,
        (sweepCells device addr second (x + first) (sweepCells device addr first x s).2).2) := by
  induction first generalizing x s with
  | zero => simp only [Nat.zero_add, sweepCells, List.nil_append, Nat.add_zero]
  | succ first ih =>
    rw [Nat.succ_add]
    simp only [sweepCells, ih, List.cons_append, Nat.add_assoc, Nat.add_comm 1 first]

theorem sweepCells_shift (count offset x : Nat) (s : Sweep) :
    sweepCells device (addr + BitVec.ofNat 64 offset) count x s =
      sweepCells device addr count (offset + x) s := by
  induction count generalizing x s with
  | zero => rfl
  | succ count ih => simp only [sweepCells, ih, BitVec.add_assoc, ← BitVec.ofNat_add, Nat.add_assoc]

/-- The cells of the rows are those of one line. -/
theorem sweepRows_cells (count y : Nat) (s : Sweep) :
    (sweepRows device addr count y s).flatMap SourcedRow.cells =
      (sweepCells device addr (16 * count) (16 * y) s).1 := by
  induction count generalizing y s with
  | zero => rfl
  | succ count ih =>
    have place : y <<< 4 = 16 * y := by rw [Nat.shiftLeft_eq, Nat.mul_comm]
    rw [Nat.mul_succ, Nat.add_comm (16 * count), sweepCells_add]
    simp only [sweepRows, List.flatMap_cons, ih, place, sweepCells_shift, Nat.add_zero, Nat.mul_succ]

theorem sweepCells_addresses (count x : Nat) (s : Sweep) :
    (sweepCells device addr count x s).1.map Cell.address =
      (List.range' x count).map fun x => addr + BitVec.ofNat 64 x := by
  induction count generalizing x s with
  | zero => rfl
  | succ count ih => simp only [sweepCells, List.map_cons, ih, List.range'_succ]

/-! ## Where a byte is from -/

/-- `c` is what was read at its source. -/
def Sweep.Sourced (s : Sweep) : Prop :=
  ∀ address, s.source = some address → ∃ call, device.read call address = some s.c

theorem Sweep.Sourced.readByte {device : Device} {s : Sweep} (sourced : s.Sourced device) (address : Addr) :
    (s.readByte device address).Sourced device := by
  intro from' same
  unfold Sweep.readByte at same ⊢
  dsimp only at same ⊢
  split at same
  · rename_i byte read
    obtain rfl := Option.some.inj same
    exact ⟨_, read⟩
  · exact sourced from' same

theorem sweepCells_sourced {s : Sweep} (sourced : s.Sourced device) (count x : Nat) :
    ∀ cell ∈ (sweepCells device addr count x s).1, ∀ address, cell.source = some address →
      ∃ call, device.read call address = some cell.c := by
  induction count generalizing x s with
  | zero => exact fun cell member => absurd member List.not_mem_nil
  | succ count ih =>
    have next := sourced.readByte (addr + BitVec.ofNat 64 x)
    simp only [sweepCells, List.forall_mem_cons]
    exact ⟨next, ih next (x + 1)⟩

theorem Sweep.readByte_drawn (address : Addr) (s : Sweep) :
    (s.readByte device address).drawn = s.drawn + 1 := by
  unfold readByte
  dsimp only
  split <;> rfl

/-- A cell shows its own byte exactly if the read is made at its address and succeeds. -/
theorem Sweep.readByte_source_iff {address : Addr} {s : Sweep} (fresh : s.source ≠ some address) :
    (s.readByte device address).source = some address ↔
      (device.seek s.drawn address ∨ s.pos = address) ∧ (device.read s.drawn address).isSome := by
  have position : (if device.seek s.drawn address then address else s.pos) = address ↔
      device.seek s.drawn address ∨ s.pos = address := by
    split <;> simp_all
  rw [← position]
  unfold readByte
  dsimp only
  generalize (if device.seek s.drawn address then address else s.pos) = pos
  split
  · rename_i byte read
    simp only [Option.some.injEq]
    constructor
    · rintro rfl
      exact ⟨rfl, by rw [read]; rfl⟩
    · exact And.left
  · rename_i failed
    simp only [fresh, false_iff, not_and]
    rintro rfl
    rw [failed]
    exact Bool.false_ne_true

theorem Sweep.readByte_pos {address : Addr} {s : Sweep} (fresh : s.source ≠ some address)
    (own : (s.readByte device address).source = some address) :
    (s.readByte device address).pos = address + 1#64 := by
  unfold readByte at own ⊢
  dsimp only at own ⊢
  split at own
  · rw [Option.some.inj own]
  · exact absurd own fresh

/-- All the cells of a line show their own bytes exactly if all the reads succeed, and the first
    is made at its address: after a read that succeeded the file is where the next cell is. -/
theorem sweepCells_own_iff (count : Nat) (small : count ≤ 2 ^ 64) {x : Nat} {s : Sweep}
    (fresh : ∀ k < count, s.source ≠ some (addr + BitVec.ofNat 64 (x + k))) :
    (∀ cell ∈ (sweepCells device addr count x s).1, cell.source = some cell.address) ↔
      ∀ k < count, (device.read (s.drawn + k) (addr + BitVec.ofNat 64 (x + k))).isSome ∧
        (k = 0 → device.seek s.drawn (addr + BitVec.ofNat 64 x) ∨ s.pos = addr + BitVec.ofNat 64 x) := by
  induction count generalizing x s with
  | zero => simp [sweepCells]
  | succ count ih =>
    have first := fresh 0 (Nat.zero_lt_succ count)
    rw [Nat.add_zero] at first
    have own := Sweep.readByte_source_iff device first
    -- once the first cell is right, the rest begins at the position the read has left
    have rest (right : (s.readByte device (addr + BitVec.ofNat 64 x)).source =
        some (addr + BitVec.ofNat 64 x)) := by
      have onward (k : Nat) (below : k < count) : (s.readByte device (addr + BitVec.ofNat 64 x)).source ≠
          some (addr + BitVec.ofNat 64 (x + 1 + k)) := by
        rw [right, Ne, Option.some.injEq, BitVec.add_right_inj, BitVec.toNat_eq, BitVec.toNat_ofNat,
          BitVec.toNat_ofNat]
        omega
      have position := Sweep.readByte_pos device first right
      rw [BitVec.add_assoc, ← BitVec.ofNat_add] at position
      have remaining := ih (by omega) onward
      rw [Sweep.readByte_drawn, position] at remaining
      exact remaining
    rw [Nat.forall_lt_succ_left]
    simp only [sweepCells, List.forall_mem_cons]
    refine (and_congr_right rest).trans (and_congr (own.trans ?_) (forall₂_congr fun k _ => ?_))
    · simp [and_comm]
    · simp [Nat.add_assoc, Nat.add_comm 1 k]

end

/-! ## The redraw -/

/-- The cell shows the byte read at its own address. -/
def Cell.Own (device : Device) (cell : Cell) : Prop :=
  cell.source = some cell.address ∧ ∃ call, device.read call cell.address = some cell.c

theorem sweepMemory_cells (lines : BitVec 32) (device : Device) (pos : Addr) (c : Byte) (addr : Addr) :
    (sweepMemory lines device pos c addr).flatMap SourcedRow.cells =
      (sweepCells device (addr &&& 0xfffffffffffffff0#64) (16 * (lines.toInt - 5).toNat) 0
        { pos, c, source := none, drawn := 0 }).1 :=
  sweepRows_cells device _ _ 0 _

theorem sweepMemory_addresses (lines : BitVec 32) (device : Device) (pos : Addr) (c : Byte) (addr : Addr) :
    ((sweepMemory lines device pos c addr).flatMap SourcedRow.cells).map Cell.address =
      (List.range (16 * (lines.toInt - 5).toNat)).map fun i =>
        (addr &&& 0xfffffffffffffff0#64) + BitVec.ofNat 64 i := by
  rw [sweepMemory_cells, sweepCells_addresses, List.range_eq_range']

/-- No cell of a redraw shows a byte of another address, or of none, if and only if every read
    at the address of a cell succeeds and the first is made there. -/
theorem cells_own_iff (lines : BitVec 32) (device : Device) (pos : Addr) (c : Byte) (addr : Addr) :
    (∀ row ∈ sweepMemory lines device pos c addr, ∀ cell ∈ row.cells, cell.Own device) ↔
      ∀ i < 16 * (lines.toInt - 5).toNat,
        (device.read i ((addr &&& 0xfffffffffffffff0#64) + BitVec.ofNat 64 i)).isSome ∧
          (i = 0 → device.seek 0 (addr &&& 0xfffffffffffffff0#64) ∨
            pos = addr &&& 0xfffffffffffffff0#64) := by
  have bound := lines.toInt_lt
  have every := sweepCells_own_iff device (addr &&& 0xfffffffffffffff0#64)
    (16 * (lines.toInt - 5).toNat) (by omega) (x := 0)
    (s := { pos, c, source := none, drawn := 0 }) (fun _ _ same => by cases same)
  have sourced : Sweep.Sourced device { pos, c, source := none, drawn := 0 } := fun _ same => by cases same
  simp only [Nat.zero_add, BitVec.add_zero] at every
  rw [← every, ← sweepMemory_cells, List.forall_mem_flatMap]
  refine forall₂_congr fun row there => forall₂_congr fun cell member => and_iff_left_of_imp fun own => ?_
  have place : cell ∈ (sweepMemory lines device pos c addr).flatMap SourcedRow.cells :=
    List.mem_flatMap.mpr ⟨row, there, member⟩
  rw [sweepMemory_cells] at place
  exact sweepCells_sourced device _ sourced _ _ cell place _ own

/-- The byte at 0 is drawn again for the address 1, where the read fails. -/
theorem stale_cell :
    let device : Device :=
      { seek := fun _ _ => true, read := fun _ a => if a = 1#64 then none else some 0x41#8 }
    (∃ row ∈ sweepMemory 6#32 device 0 0 0, { address := 1, c := 0x41, source := some 0 } ∈ row.cells) ∧
      ¬ ∀ row ∈ sweepMemory 6#32 device 0 0 0, ∀ cell ∈ row.cells, cell.Own device := by
  intro device
  have stale : ∃ row ∈ sweepMemory 6#32 device 0 0 0,
      { address := 1, c := 0x41, source := some 0 } ∈ row.cells := by decide
  obtain ⟨row, there, member⟩ := stale
  refine ⟨⟨row, there, member⟩, fun all => ?_⟩
  exact absurd (all row there _ member).1 (by decide)

end TestPrograms.Editor
