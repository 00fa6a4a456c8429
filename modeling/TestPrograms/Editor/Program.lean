import TestPrograms.Foundations.Hex
import TestPrograms.Foundations.Runs

/-! # The memory editor

The main loop of `memory.c`: a window of rows of sixteen bytes over a device, a cursor
that the keys move, and hex digits that are written under it.
-/

namespace TestPrograms.Editor

open TestPrograms.Foundations

abbrev Addr := BitVec 64

/-- `LINES`, at least the six lines the frame, the titles and one row need. -/
structure Terminal where
  lines : Int
  tall : 6 ≤ lines
  int : lines < 2 ^ 31

/-- A row as it is drawn: the address, the bytes in hexadecimal and as characters. -/
structure Row where
  label : List Char
  hex : List (Char × Char)
  ascii : List Char
  deriving DecidableEq, Repr

/-- What the device answers to a one-byte read while a key is handled (`none` where the
    read fails), and what `c` of `display_memory` holds before the first. -/
structure View where
  device : Addr → Option Byte
  c : Byte

/-- The variables of the program.  A byte is not always written where it is asked for: a seek may
    fail, and its result is not looked at. -/
structure State where
  topAddr : Addr
  x : Int
  y : Int
  n : Int
  idata : BitVec 32
  autoredraw : Bool
  screen : List Row
  -- the address of the seek before each `write` and the byte, oldest first
  requests : List (Addr × Byte)
  deriving DecidableEq, Repr

/-- A turn of the loop: what `wgetch` returned, and the device at that time. -/
structure Press where
  key : Int
  view : View

/-! ## `display_memory` -/

/-- A read that fails leaves `c` as it was. -/
def readCells (device : Addr → Option Byte) (addr : Addr) : Nat → Nat → Byte → List Byte × Byte
  | 0, _, c => ([], c)
  | count + 1, x, c =>
    let c := (device (addr + BitVec.ofNat 64 x)).getD c
    let (cells, last) := readCells device addr count (x + 1) c
    (c :: cells, last)

def drawCell (c : Byte) : Char × Char := (upperDigit (c.toNat / 16), upperDigit (c.toNat % 16))

def drawAscii (c : Byte) : Char :=
  if 0x20#8 ≤ c ∧ c ≤ 0x7f#8 then Char.ofNat c.toNat else '.'

def drawRows (device : Addr → Option Byte) (addr : Addr) : Nat → Nat → Byte → List Row
  | 0, _, _ => []
  | count + 1, y, c =>
    let rowAddr := addr + BitVec.ofNat 64 (y <<< 4)
    let (cells, c) := readCells device rowAddr 16 0 c
    { label := hexText 16 rowAddr.toNat, hex := cells.map drawCell, ascii := cells.map drawAscii } ::
      drawRows device addr count (y + 1) c

def displayMemory (t : Terminal) (view : View) (addr : Addr) : List Row :=
  drawRows view.device (addr &&& 0xfffffffffffffff0#64) (t.lines - 5).toNat 0 view.c

/-! ## Keys -/

def ord (c : Char) : Int := c.toNat

-- `'F'-0x40`
def ctrl (c : Char) : Int := ord c - 0x40

-- `KEY_UP` and its letters, and so on.
def upKeys : List Int := [0o403, ord 'k', ord 'K']

def downKeys : List Int := [0o402, ord 'j', ord 'J']

def leftKeys : List Int := [0o404, ord 'h', ord 'H']

def rightKeys : List Int := [0o405, ord 'l', ord 'L']

def isxdigit (c : Int) : Bool :=
  ord '0' ≤ c ∧ c ≤ ord '9' ∨ ord 'A' ≤ c ∧ c ≤ ord 'F' ∨ ord 'a' ≤ c ∧ c ≤ ord 'f'

def islower (c : Int) : Bool := ord 'a' ≤ c ∧ c ≤ ord 'z'

/-! ## The loop -/

-- `display_memory(top_addr)`
def State.redraw (t : Terminal) (view : View) (e : State) : State :=
  { e with screen := displayMemory t view e.topAddr }

/-- `waddch` at the cursor: it covers one of the two digits of a byte. -/
def State.waddch (c : Int) (e : State) : State :=
  let digit := Char.ofNat c.toNat
  { e with
    screen := e.screen.modify e.y.toNat fun row =>
      { row with
        hex := row.hex.modify e.x.toNat fun (high, low) =>
          if e.n = 0 then (digit, low) else (high, digit) } }

-- `top_addr + (y<<4) + x`
def State.cursor (e : State) : Addr :=
  e.topAddr + BitVec.ofInt 64 (e.y * 16) + BitVec.ofInt 64 e.x

/-- The seek and the write of one byte, the low one of `idata`, as they are asked for. -/
def State.request (e : State) : State :=
  { e with requests := e.requests ++ [(e.cursor, e.idata.setWidth 8)] }

def State.skipByte (t : Terminal) (e : State) : State :=
  if e.x < 15 then { e with n := 0, x := e.x + 1 }
  else if e.y < t.lines - 6 then { e with n := 0, x := 0, y := e.y + 1 }
  else { e with n := 0, x := 0 }

def State.digit (t : Terminal) (c : Int) (e : State) : State :=
  let c := if islower c then c - 0x20 else c
  let value := if ord '0' ≤ c ∧ c ≤ ord '9' then c - ord '0' else c - ord 'A' + 10
  if e.n = 0 then { e.waddch c with idata := BitVec.ofInt 32 value, n := 1 }
  else
    let e := e.waddch c
    let e := { e with idata := e.idata <<< 4 }
    let e := { e with idata := e.idata ||| BitVec.ofInt 32 value }
    e.request.skipByte t

/-- The `switch`. -/
def State.key (t : Terminal) (press : Press) (e : State) : State :=
  let c := press.key
  if c ∈ upKeys then
    if 0 < e.y then { e with n := 0, y := e.y - 1 }
    else { e with topAddr := e.topAddr - 0x10 }.redraw t press.view
  else if c ∈ downKeys then
    if e.y < t.lines - 6 then { e with n := 0, y := e.y + 1 }
    else { e with topAddr := e.topAddr + 0x10 }.redraw t press.view
  else if c ∈ leftKeys then
    if 0 < e.x then { e with n := 0, x := e.x - 1 } else e
  else if c ∈ rightKeys then
    if e.x < 15 then { e with n := 0, x := e.x + 1 } else e
  else if c = ctrl 'F' then
    { e with topAddr := e.topAddr + BitVec.ofInt 64 ((t.lines - 6) * 0x10) }.redraw t press.view
  else if c = ctrl 'B' then
    { e with topAddr := e.topAddr - BitVec.ofInt 64 ((t.lines - 6) * 0x10) }.redraw t press.view
  else if c = -1 then if e.autoredraw then e.redraw t press.view else e
  else if c = 0x1b then e.redraw t press.view
  else if c = ctrl 'L' then { e with autoredraw := !e.autoredraw }.redraw t press.view
  else if isxdigit c then e.digit t c
  else e

inductive Exit where
  | exited
  deriving DecidableEq, Repr

/-- The body of the loop and its test. -/
def turn (t : Terminal) (e : State) (press : Press) : Except Exit State :=
  let e := e.key t press
  if press.key ≠ ctrl 'X' then .ok e else .error .exited

def start (t : Terminal) (view : View) (inputAddr : Addr) : State :=
  let topAddr := inputAddr &&& ~~~0xf#64
  { topAddr, x := (inputAddr &&& 0xf#64).toNat, y := 0, n := 0, idata := 0, autoredraw := true
    screen := displayMemory t view topAddr, requests := [] }

end TestPrograms.Editor
