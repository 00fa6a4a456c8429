import TestPrograms.Editor.Program
import TestPrograms.Foundations.Files

/-! # The editor on its file

`memory.c` with the open file in its state: `display_memory` seeks to every cell and reads
it, a second digit seeks to the cursor and writes its byte.
-/

namespace TestPrograms.Editor

open TestPrograms.Foundations

/-- The variables of the program and the file behind `mem_fd`. -/
structure Session (φ : Type) where
  editor : State
  file : φ

/-- What `wgetch` returned, and what `c` of `display_memory` holds on entry in that turn. -/
structure Input where
  key : Int
  c : Byte

section

variable {φ ε : Type} (file : OpenFile φ Addr Byte ε)

/-! ## `display_memory` -/

def fetchCells (addr : Addr) : Nat → Nat → Byte → φ → Except ε (List Byte × Byte × φ)
  | 0, _, c, f => .ok ([], c, f)
  | count + 1, x, c, f => do
    let (byte, f) ← file.read (file.lseek f (addr + BitVec.ofNat 64 x))
    let c := byte.getD c
    let (cells, last, f) ← fetchCells addr count (x + 1) c f
    return (c :: cells, last, f)

def fetchRows (addr : Addr) : Nat → Nat → Byte → φ → Except ε (List Row × φ)
  | 0, _, _, f => .ok ([], f)
  | count + 1, y, c, f => do
    let rowAddr := addr + BitVec.ofNat 64 (y <<< 4)
    let (cells, c, f) ← fetchCells file rowAddr 16 0 c f
    let (rows, f) ← fetchRows addr count (y + 1) c f
    let row :=
      { label := hexText 16 rowAddr.toNat, hex := cells.map drawCell, ascii := cells.map drawAscii }
    return (row :: rows, f)

def displayFile (t : Terminal) (c : Byte) (addr : Addr) (f : φ) : Except ε (List Row × φ) :=
  fetchRows file (addr &&& 0xfffffffffffffff0#64) (t.lines - 5).toNat 0 c f

/-! ## The loop -/

-- `display_memory(top_addr)`
def Session.redraw (t : Terminal) (c : Byte) (s : Session φ) : Except ε (Session φ) := do
  let (screen, f) ← displayFile file t c s.editor.topAddr s.file
  return { editor := { s.editor with screen }, file := f }

def Session.digit (t : Terminal) (c : Int) (s : Session φ) : Except ε (Session φ) :=
  let e := s.editor
  let c := if islower c then c - 0x20 else c
  let value := if ord '0' ≤ c ∧ c ≤ ord '9' then c - ord '0' else c - ord 'A' + 10
  if e.n = 0 then
    .ok { s with editor := { e.waddch c with idata := BitVec.ofInt 32 value, n := 1 } }
  else do
    let e := { e.waddch c with idata := e.idata <<< 4 ||| BitVec.ofInt 32 value }
    let f ← file.write (file.lseek s.file e.cursor) (e.idata.setWidth 8)
    return { editor := e.request.skipByte t, file := f }

/-- The `switch`. -/
def Session.key (t : Terminal) (input : Input) (s : Session φ) : Except ε (Session φ) :=
  let e := s.editor
  let c := input.key
  if c ∈ upKeys then
    if 0 < e.y then .ok { s with editor := { e with n := 0, y := e.y - 1 } }
    else { s with editor := { e with topAddr := e.topAddr - 0x10 } }.redraw file t input.c
  else if c ∈ downKeys then
    if e.y < t.lines - 6 then .ok { s with editor := { e with n := 0, y := e.y + 1 } }
    else { s with editor := { e with topAddr := e.topAddr + 0x10 } }.redraw file t input.c
  else if c ∈ leftKeys then
    if 0 < e.x then .ok { s with editor := { e with n := 0, x := e.x - 1 } } else .ok s
  else if c ∈ rightKeys then
    if e.x < 15 then .ok { s with editor := { e with n := 0, x := e.x + 1 } } else .ok s
  else if c = ctrl 'F' then
    { s with editor := { e with topAddr := e.topAddr + BitVec.ofInt 64 ((t.lines - 6) * 0x10) } }.redraw
      file t input.c
  else if c = ctrl 'B' then
    { s with editor := { e with topAddr := e.topAddr - BitVec.ofInt 64 ((t.lines - 6) * 0x10) } }.redraw
      file t input.c
  else if c = -1 then if e.autoredraw then s.redraw file t input.c else .ok s
  else if c = 0x1b then s.redraw file t input.c
  else if c = ctrl 'L' then
    { s with editor := { e with autoredraw := !e.autoredraw } }.redraw file t input.c
  else if isxdigit c then s.digit file t c
  else .ok s

/-- How a session ends: `Ctrl-X`, or a call on the file that never returns. -/
inductive SessionEnd (ε : Type) where
  | exited
  | stuck (error : ε)
  deriving DecidableEq, Repr

/-- The body of the loop and its test. -/
def Session.turn (t : Terminal) (s : Session φ) (input : Input) :
    Except (SessionEnd ε) (Session φ) :=
  match s.key file t input with
  | .error error => .error (.stuck error)
  | .ok next => if input.key ≠ ctrl 'X' then .ok next else .error .exited

/-- `main` up to the loop, with the file just opened. -/
def Session.start (t : Terminal) (c : Byte) (inputAddr : Addr) (opened : φ) : Except ε (Session φ) := do
  let topAddr := inputAddr &&& ~~~0xf#64
  let (screen, f) ← displayFile file t c topAddr opened
  return {
    editor := {
      topAddr, x := (inputAddr &&& 0xf#64).toNat, y := 0, n := 0, idata := 0, autoredraw := true
      screen, requests := [] }
    file := f }

end

end TestPrograms.Editor
