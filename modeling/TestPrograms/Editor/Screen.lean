import TestPrograms.Editor.OnDevice

/-! # What the screen shows

The hexadecimal digits on the screen are those of physical memory, also where bytes have been
typed since the last redraw: the low digit of a cell always, and the high digit unless a byte
was begun there and given up, or a redraw has come between its two digits.
-/

namespace TestPrograms.Editor

open TestPrograms.Foundations
open TestPrograms.Foundations.Memory
open TestPrograms.Devmem

/-- The keys that draw the window again. -/
def State.Redraws (t : Terminal) (e : State) (c : Int) : Prop :=
  c ∈ upKeys ∧ ¬ 0 < e.y ∨ c ∈ downKeys ∧ ¬ e.y < t.lines - 6 ∨ c = ctrl 'F' ∨ c = ctrl 'B' ∨
    c = -1 ∧ e.autoredraw ∨ c = 0x1b ∨ c = ctrl 'L'

instance (t : Terminal) (e : State) (c : Int) : Decidable (e.Redraws t c) :=
  inferInstanceAs (Decidable (_ ∨ _))

def State.cell (e : State) : Nat × Nat := (e.y.toNat, e.x.toNat)

/-- The cells whose high digit is not that of the byte behind it: a first digit has been typed
    there, or a second one under a high digit drawn after the first was typed. -/
def State.unsure (t : Terminal) (e : State) (c : Int) (cells : List (Nat × Nat)) : List (Nat × Nat) :=
  if e.Redraws t c then []
  else if isxdigit c then
    if e.n = 1 ∧ e.cell ∈ cells then cells.filter (· ≠ e.cell) else e.cell :: cells
  else cells

def hexAt (screen : List Row) (r x : Nat) : Option (Char × Char) :=
  (screen[r]?).bind fun row => row.hex[x]?

section

variable {t : Terminal} {e : State}

/-! ## Redraws -/

theorem readCells_getElem {device : Addr → Option Byte} {addr : Addr} {count x i : Nat} {c byte : Byte}
    (below : i < count) (read : device (addr + BitVec.ofNat 64 (x + i)) = some byte) :
    (readCells device addr count x c).1[i]? = some byte := by
  induction count generalizing x i c with
  | zero => omega
  | succ count ih =>
    simp only [readCells]
    cases i with
    | zero =>
      rw [Nat.add_zero] at read
      rw [read]
      rfl
    | succ i =>
      rw [List.getElem?_cons_succ]
      exact ih (Nat.lt_of_succ_lt_succ below) (by rwa [Nat.add_assoc, Nat.add_comm 1 i])

theorem drawRows_hexAt {device : Addr → Option Byte} {addr : Addr} {count y r x : Nat} {c byte : Byte}
    (row : r < count) (column : x < 16)
    (read : device (addr + BitVec.ofNat 64 (16 * (y + r) + x)) = some byte) :
    hexAt (drawRows device addr count y c) r x = some (drawCell byte) := by
  induction count generalizing y r c with
  | zero => omega
  | succ count ih =>
    simp only [drawRows]
    cases r with
    | zero =>
      have place : device (addr + BitVec.ofNat 64 (y <<< 4) + BitVec.ofNat 64 (0 + x)) = some byte := by
        rw [Nat.zero_add, BitVec.add_assoc, ← BitVec.ofNat_add, Nat.shiftLeft_eq, Nat.mul_comm]
        exact read
      simp [hexAt, readCells_getElem column place]
    | succ r =>
      rw [hexAt, List.getElem?_cons_succ]
      exact ih (Nat.lt_of_succ_lt_succ row) (by rwa [Nat.add_assoc, Nat.add_comm 1 r])

theorem State.key_redraws (press : Press) (redraws : e.Redraws t press.key) :
    ∃ topAddr autoredraw, e.key t press =
      ({ e with topAddr, autoredraw } : State).redraw t press.view := by
  have apart : ∀ c ∈ downKeys, c ∉ upKeys := by decide
  rw [key]
  rcases redraws with ⟨up, top⟩ | ⟨down, bottom⟩ | pageDown | pageUp | ⟨timeout, auto⟩ | escape | toggle
  · rw [if_pos up, if_neg top]
    exact ⟨_, e.autoredraw, rfl⟩
  · rw [if_neg (apart _ down), if_pos down, if_neg bottom]
    exact ⟨_, e.autoredraw, rfl⟩
  · rw [pageDown, if_neg (by decide), if_neg (by decide), if_neg (by decide), if_neg (by decide),
      if_pos rfl]
    exact ⟨_, e.autoredraw, rfl⟩
  · rw [pageUp, if_neg (by decide), if_neg (by decide), if_neg (by decide), if_neg (by decide),
      if_neg (by decide), if_pos rfl]
    exact ⟨_, e.autoredraw, rfl⟩
  · rw [timeout, if_neg (by decide), if_neg (by decide), if_neg (by decide), if_neg (by decide),
      if_neg (by decide), if_neg (by decide), if_pos rfl, if_pos auto]
    exact ⟨e.topAddr, e.autoredraw, rfl⟩
  · rw [escape, if_neg (by decide), if_neg (by decide), if_neg (by decide), if_neg (by decide),
      if_neg (by decide), if_neg (by decide), if_neg (by decide), if_pos rfl]
    exact ⟨e.topAddr, e.autoredraw, rfl⟩
  · rw [toggle, if_neg (by decide), if_neg (by decide), if_neg (by decide), if_neg (by decide),
      if_neg (by decide), if_neg (by decide), if_neg (by decide), if_neg (by decide), if_pos rfl]
    exact ⟨e.topAddr, _, rfl⟩

/-- Other keys than these and the digits leave the screen. -/
theorem State.key_still (press : Press) (still : ¬ e.Redraws t press.key)
    (plain : ¬ isxdigit press.key) :
    ∃ x y n, e.key t press = { e with x, y, n } ∧ (n = 1 → x = e.x ∧ y = e.y ∧ e.n = 1) := by
  have moved (x y : Int) : ∃ x' y' n, ({ e with x, y, n := 0 } : State) = { e with x := x', y := y', n } ∧
      (n = 1 → x' = e.x ∧ y' = e.y ∧ e.n = 1) := ⟨x, y, 0, rfl, fun zero => by cases zero⟩
  have kept : ∃ x y n, e = { e with x, y, n } ∧ (n = 1 → x = e.x ∧ y = e.y ∧ e.n = 1) :=
    ⟨e.x, e.y, e.n, rfl, fun begun => ⟨rfl, rfl, begun⟩⟩
  unfold Redraws at still
  simp only [not_or, not_and, not_not] at still
  obtain ⟨up, down, pageDown, pageUp, timeout, escape, toggle⟩ := still
  rw [key]
  split
  · rename_i key
    rw [if_pos (up key)]
    exact moved e.x (e.y - 1)
  split
  · rename_i key
    rw [if_pos (down key)]
    exact moved e.x (e.y + 1)
  split
  · split
    · exact moved (e.x - 1) e.y
    · exact kept
  split
  · split
    · exact moved (e.x + 1) e.y
    · exact kept
  split
  · rename_i key
    rw [if_neg (timeout key)]
    exact kept
  · exact kept

/-! ## Digits -/

theorem waddch_hexAt (c : Int) (e : State) (r x : Nat) :
    hexAt (e.waddch c).screen r x = (hexAt e.screen r x).map fun pair =>
      if (r, x) = e.cell then
        if e.n = 0 then (Char.ofNat c.toNat, pair.2) else (pair.1, Char.ofNat c.toNat)
      else pair := by
  simp only [hexAt, State.waddch, List.getElem?_modify, State.cell, Prod.mk.injEq]
  cases e.screen[r]? with
  | none => rfl
  | some row =>
    by_cases here : e.y.toNat = r
    · simp only [here, if_true, Option.map_eq_map, Option.map_some, Option.bind_some, true_and,
        List.getElem?_modify, eq_comm]
    · have other : ¬ r = e.y.toNat := fun same => here same.symm
      simp [here, other]

theorem upper_char {c : Int} (typed : isxdigit c) :
    Char.ofNat (upper c).toNat = upperDigit (hexValue c).toNat := by
  have code : (upper c).toNat = if (hexValue c).toNat < 10 then 0x30 + (hexValue c).toNat
      else 0x41 + ((hexValue c).toNat - 10) := by
    simp only [isxdigit, ord] at typed
    simp only [upper, islower, hexValue, ord]
    grind
  rw [code, upperDigit]
  split
  · rfl
  · rfl

theorem drawCell_pair {idata : BitVec 32} {c : Int} (typed : isxdigit c) (small : idata.toNat < 16) :
    drawCell ((idata <<< 4 ||| BitVec.ofInt 32 (hexValue c)).setWidth 8) =
      (upperDigit idata.toNat, Char.ofNat (upper c).toNat) := by
  obtain ⟨low, high⟩ := hexValue_lt typed
  have value : idata = BitVec.ofInt 32 (idata.toNat : Int) := by
    rw [BitVec.ofInt_natCast, BitVec.ofNat_toNat, BitVec.setWidth_eq]
  have byte : (idata <<< 4 ||| BitVec.ofInt 32 (hexValue c)).setWidth 8 =
      BitVec.ofInt 8 (16 * (idata.toNat : Int) + hexValue c) := by
    have nibble : 0 ≤ (idata.toNat : Int) ∧ (idata.toNat : Int) < 16 := ⟨by omega, by omega⟩
    have pair := pair_value nibble ⟨low, high⟩
    rwa [← value] at pair
  have toNat : (BitVec.ofInt 8 (16 * (idata.toNat : Int) + hexValue c)).toNat =
      16 * idata.toNat + (hexValue c).toNat := by
    rw [BitVec.toNat_ofInt]
    omega
  rw [byte, drawCell, toNat, upper_char typed]
  congr 2
  · omega
  · omega

end

/-! ## The invariant -/

/-- The address that a cell stands for. -/
def State.cellAddress (e : State) (r x : Nat) : Addr := e.topAddr + BitVec.ofNat 64 (16 * r + x)

/-- What is known of the cell in row `r` and column `x`. -/
structure State.Cell (e : State) (memory : Memory) (cells : List (Nat × Nat)) (r x : Nat)
    (pair : Char × Char) : Prop where
  drawn : hexAt e.screen r x = some pair
  low : pair.2 = (drawCell (memory ((e.cellAddress r x).toNat % 2 ^ 52))).2
  high : (r, x) ∉ cells → pair.1 = (drawCell (memory ((e.cellAddress r x).toNat % 2 ^ 52))).1
  -- the first digit of a byte is still on the screen
  begun : e.n = 1 → (r, x) = e.cell → (r, x) ∈ cells → pair.1 = upperDigit e.idata.toNat

/-- The device shows the cell as it is in memory. -/
def State.Visible (k : Kernel) (admits : Addr → Bool) (e : State) (r x : Nat) : Prop :=
  admits (e.cellAddress r x) ∧ (e.cellAddress r x).toNat / 4096 % 2 ^ 40 ≠ k.pagedPte / 4096

structure ScreenShows (k : Kernel) (admits : Addr → Bool) (t : Terminal) (cells : List (Nat × Nat))
    (s : Session Opened) : Prop where
  inside : s.editor.InWindow t
  aligned : s.editor.topAddr.toNat % 16 = 0
  small : s.editor.n = 1 → s.editor.idata.toNat < 16
  cell : ∀ r < (t.lines - 5).toNat, ∀ x < 16, s.editor.Visible k admits r x →
    ∃ pair, s.editor.Cell s.file.memory cells r x pair

section

variable {k : Kernel} {admits : Addr → Bool} {t : Terminal}

theorem redraw_cell {e : State} {memory : Memory} {c : Byte} {cells : List (Nat × Nat)} {r x : Nat}
    (aligned : e.topAddr.toNat % 16 = 0)
    (screen : e.screen =
      displayMemory t { device := (Device.pmem.store k admits).shown memory, c } e.topAddr)
    (row : r < (t.lines - 5).toNat) (column : x < 16) (visible : e.Visible k admits r x)
    (none : cells = []) : ∃ pair, e.Cell memory cells r x pair := by
  have shown := pmem_shown memory visible.1 visible.2
  have drawn : hexAt e.screen r x = some (drawCell (memory ((e.cellAddress r x).toNat % 2 ^ 52))) := by
    rw [screen, displayMemory, and_topMask aligned]
    exact drawRows_hexAt row column (by rw [Nat.zero_add]; exact shown)
  exact ⟨_, drawn, rfl, fun _ => rfl, fun _ _ member => by rw [none] at member; cases member⟩

theorem State.cursor_cell {e : State} (inside : e.InWindow t) :
    e.cursor = e.cellAddress e.cell.1 e.cell.2 := by
  have columns := inside.column
  have rows := inside.row
  have offset : 16 * e.y + e.x = ((16 * e.y.toNat + e.x.toNat : Nat) : Int) := by omega
  rw [cursor_eq, cellAddress, cell, offset, BitVec.ofInt_natCast]

/-- Two cells stand for two bytes of physical memory. -/
theorem State.cellAddress_apart {e : State} {r x r' x' : Nat} (row : r < (t.lines - 5).toNat)
    (column : x < 16) (row' : r' < (t.lines - 5).toNat) (column' : x' < 16)
    (same : (e.cellAddress r x).toNat % 2 ^ 52 = (e.cellAddress r' x').toNat % 2 ^ 52) :
    (r, x) = (r', x') := by
  have int := t.int
  simp only [cellAddress, BitVec.toNat_add, BitVec.toNat_ofNat] at same
  rw [Prod.mk.injEq]
  omega

section

variable {cells : List (Nat × Nat)} {s next : Session Opened} {c : Int}
  (shows : ScreenShows k admits t cells s) (typed : isxdigit c)

include shows typed

theorem ScreenShows.first (fresh : s.editor.n = 0) (editor : next.editor = s.editor.digit t c)
    (memory : next.file.memory = s.file.memory) :
    ScreenShows k admits t (s.editor.cell :: cells) next := by
  obtain ⟨low, high⟩ := hexValue_lt typed
  have idata : (BitVec.ofInt 32 (hexValue c)).toNat = (hexValue c).toNat := by
    rw [BitVec.toNat_ofInt]
    omega
  obtain ⟨e, file⟩ := next
  dsimp only at editor memory
  rw [State.digit_first typed fresh] at editor
  subst editor
  refine ⟨⟨shows.inside.column, shows.inside.row, .inr rfl⟩, shows.aligned, fun _ => ?_,
    fun r row x column visible => ?_⟩
  · dsimp only
    omega
  obtain ⟨pair, known⟩ := shows.cell r row x column visible
  have drawn : hexAt (s.editor.waddch (upper c)).screen r x =
      some (if (r, x) = s.editor.cell then (Char.ofNat (upper c).toNat, pair.2) else pair) := by
    rw [waddch_hexAt, known.drawn, Option.map_some]
    simp only [fresh, if_true]
  have lowDigit := known.low
  rw [← memory] at lowDigit
  by_cases here : (r, x) = s.editor.cell
  · rw [if_pos here] at drawn
    refine ⟨_, drawn, lowDigit, fun absent => ?_, fun _ _ _ => ?_⟩
    · exact absurd (here ▸ List.mem_cons_self) absent
    · dsimp only
      rw [upper_char typed, idata]
  · rw [if_neg here] at drawn
    refine ⟨_, drawn, lowDigit, fun absent => ?_, fun _ there => absurd there here⟩
    have highDigit := known.high fun member => absent (List.mem_cons_of_mem _ member)
    rw [← memory] at highDigit
    exact highDigit

/-- A second digit, with the byte written if the device admits it. -/
theorem ScreenShows.second (begun : s.editor.n = 1) (editor : next.editor = s.editor.digit t c)
    (memory : next.file.memory =
      (Device.pmem.store k admits).stored s.file.memory s.editor.cursor
        ((s.editor.idata <<< 4 ||| BitVec.ofInt 32 (hexValue c)).setWidth 8)) :
    ScreenShows k admits t
      (if s.editor.cell ∈ cells then cells.filter (· ≠ s.editor.cell) else s.editor.cell :: cells)
      next := by
  have columns := shows.inside.column
  have rows := shows.inside.row
  have pair := drawCell_pair typed (shows.small begun)
  have cursor := State.cursor_cell shows.inside
  obtain ⟨x', y', skips, within⟩ := State.skipByte_eq t (s.editor.filled c)
  obtain ⟨column', row'⟩ := within ⟨columns, rows, shows.inside.half⟩
  obtain ⟨e, file⟩ := next
  dsimp only at editor memory
  rw [State.digit_second typed begun, skips] at editor
  subst editor
  have fresh (q : Prop) : (0 : Int) = 1 → q := fun one => absurd one (by decide)
  refine ⟨⟨column', row', .inl rfl⟩, shows.aligned, fun one => fresh _ one,
    fun r row x column visible => ?_⟩
  obtain ⟨old, known⟩ := shows.cell r row x column visible
  have drawn : hexAt (s.editor.waddch (upper c)).screen r x =
      some (if (r, x) = s.editor.cell then (old.1, Char.ofNat (upper c).toNat) else old) := by
    rw [waddch_hexAt, known.drawn, Option.map_some]
    simp [begun]
  rw [pmem_stored, cursor] at memory
  by_cases here : (r, x) = s.editor.cell
  · rw [if_pos here] at drawn
    -- the cell's own byte has been written
    have byte : file.memory ((s.editor.cellAddress r x).toNat % 2 ^ 52) =
        (s.editor.idata <<< 4 ||| BitVec.ofInt 32 (hexValue c)).setWidth 8 := by
      have admitted : admits (s.editor.cellAddress r x) := visible.1
      rw [memory, ← here]
      dsimp only
      rw [if_pos admitted, Function.update_self]
    refine ⟨_, drawn, ?_, fun sure => ?_, fun one => fresh _ one⟩
    · exact (congrArg Prod.snd ((congrArg drawCell byte).trans pair)).symm
    · have member : s.editor.cell ∈ cells := by
        by_contra absent
        rw [if_neg absent] at sure
        exact sure (here ▸ List.mem_cons_self)
      refine (known.begun begun here (here ▸ member)).trans ?_
      exact (congrArg Prod.fst ((congrArg drawCell byte).trans pair)).symm
  · rw [if_neg here] at drawn
    have byte : file.memory ((s.editor.cellAddress r x).toNat % 2 ^ 52) =
        s.file.memory ((s.editor.cellAddress r x).toNat % 2 ^ 52) := by
      rw [memory]
      split
      · have inRow : s.editor.cell.1 < (t.lines - 5).toNat := by
          unfold State.cell
          omega
        have inColumn : s.editor.cell.2 < 16 := by
          unfold State.cell
          omega
        exact Function.update_of_ne
          (fun same => here (State.cellAddress_apart row column inRow inColumn same)) _ _
      · rfl
    refine ⟨_, drawn, known.low.trans ?_, fun sure => (known.high fun member => sure ?_).trans ?_,
      fun one => fresh _ one⟩
    · exact congrArg (fun byte => (drawCell byte).2) byte.symm
    · split
      · exact List.mem_filter.mpr ⟨member, by simpa using here⟩
      · exact List.mem_cons_of_mem _ member
    · exact congrArg (fun byte => (drawCell byte).1) byte.symm

end

theorem State.Effect.aligned {e next : State} {press : Press} (effect : e.Effect t press next)
    (inside : e.InWindow t) (aligned : e.topAddr.toNat % 16 = 0) : next.topAddr.toNat % 16 = 0 := by
  cases effect with
  | move => exact aligned
  | keep => exact aligned
  | scroll => exact aligned_add_rows _ aligned
  | digit typed =>
    cases inside.half with
    | inl fresh =>
      rw [digit_first typed fresh]
      exact aligned
    | inr begun =>
      obtain ⟨x, y, skips, -⟩ := skipByte_eq t (e.filled press.key)
      rw [digit_second typed begun, skips]
      exact aligned

/-- What one turn preserves. -/
theorem ScreenShows.turn {cells : List (Nat × Nat)} {s next : Session Opened} {input : Input}
    (shows : ScreenShows k admits t cells s) (found : k.Finds s.file.memory)
    (spares : s.Spares Opened.memory (Device.pmem.Spares k) input)
    (steps : s.turn (Device.pmem.openFile k admits) t input = .ok next) :
    ScreenShows k admits t (s.editor.unsure t input.key cells) next := by
  have leaves := Session.key_ok (Device.pmem.openFile_refines k admits) found (Session.turn_inv steps).2
  have memory := leaves.memory spares
  have editor := leaves.1
  generalize view : (s.abs Opened.memory).view (Device.pmem.store k admits) input.c = device at editor
  have inside : next.editor.InWindow t := by
    rw [editor]
    exact (s.editor.key_effect _ shows.inside).inWindow shows.inside
  unfold State.unsure
  by_cases redraws : s.editor.Redraws t input.key
  · rw [if_pos redraws]
    obtain ⟨topAddr, autoredraw, drawn⟩ :=
      State.key_redraws { key := input.key, view := device } redraws
    have aligned := (s.editor.key_effect { key := input.key, view := device } shows.inside).aligned
      shows.inside shows.aligned
    rw [← editor] at aligned
    rw [drawn] at editor
    have same : next.file.memory = s.file.memory := by
      rw [memory, editor, State.redraw, List.drop_length, Store.storeAll_nil]
    have screen : next.editor.screen = displayMemory t
        { device := (Device.pmem.store k admits).shown next.file.memory, c := input.c }
        next.editor.topAddr := by
      rw [editor, same, ← view]
      rfl
    refine ⟨inside, aligned, ?_, fun r row x column visible =>
      redraw_cell aligned screen row column visible rfl⟩
    rw [editor]
    exact shows.small
  rw [if_neg redraws]
  by_cases typed : isxdigit input.key
  · rw [if_pos typed]
    rw [State.key_digit shows.inside typed] at editor
    rw [editor] at memory
    cases shows.inside.half with
    | inl fresh =>
      rw [State.digit_first typed fresh] at memory
      have same : next.file.memory = s.file.memory := by
        rw [memory]
        simp [State.waddch]
      rw [if_neg (by omega)]
      exact shows.first typed fresh editor same
    | inr begun =>
      rw [State.digit_second typed begun, State.skipByte_requests] at memory
      simp only [State.filled, List.drop_left, Store.storeAll_singleton] at memory
      simp only [begun, true_and]
      exact shows.second typed begun editor memory
  · rw [if_neg typed]
    obtain ⟨x, y, n, still, kept⟩ :=
      State.key_still { key := input.key, view := device } redraws typed
    rw [still] at editor
    have same : next.file.memory = s.file.memory := by
      rw [memory, editor, List.drop_length, Store.storeAll_nil]
    obtain ⟨e, file⟩ := next
    dsimp only at editor same inside
    subst editor
    refine ⟨inside, shows.aligned, fun begun => shows.small (kept begun).2.2,
      fun r row x column visible => ?_⟩
    obtain ⟨pair, known⟩ := shows.cell r row x column visible
    rw [← same] at known
    refine ⟨pair, known.drawn, known.low, known.high, fun begun there member => ?_⟩
    obtain ⟨sameX, sameY, second⟩ := kept begun
    exact known.begun second (by rw [there, State.cell, State.cell, sameX, sameY]) member

end

/-- The cells whose high digit need not be right, over a session. -/
def unsureCells {φ ε : Type} (file : OpenFile φ Addr Byte ε) (t : Terminal) (s : Session φ)
    (inputs : List Input) : List (Nat × Nat) :=
  carry (Session.turn file t) (fun s input cells => s.editor.unsure t input.key cells) s [] inputs

/-- At the end of any session on `/dev/pmem` the cells of the window show the bytes of physical
    memory that they stand for, the ones typed since the last redraw like all others: if the walk
    finds the entry of `paged_buf` in every memory it meets, and nothing is typed into the page of
    that entry.  The low digit is always right, and so is the high one unless a byte was given up
    half typed there, or drawn again between its two digits. -/
theorem screen_shows_memory {k : Kernel} {admits : Addr → Bool} {t : Terminal} {c : Byte}
    {inputAddr : Addr} {opened : Opened} {s final : Session Opened} {inputs : List Input}
    (found : k.Finds opened.memory)
    (starts : Session.start (Device.pmem.openFile k admits) t c inputAddr opened = .ok s)
    (finds : Along (Session.turn (Device.pmem.openFile k admits) t) (fun s _ => k.Finds s.file.memory)
      s inputs)
    (runs : run (Session.turn (Device.pmem.openFile k admits) t) s inputs = .ok final)
    (spared : ∀ write ∈ final.editor.requests, write.1.toNat / 4096 % 2 ^ 40 ≠ k.pagedPte / 4096)
    {r x : Nat} (row : r < (t.lines - 5).toNat) (column : x < 16)
    (visible : final.editor.Visible k admits r x) :
    let byte := final.file.memory ((final.editor.topAddr + BitVec.ofNat 64 (16 * r + x)).toNat % 2 ^ 52)
    ∃ high low, hexAt final.editor.screen r x = some (high, low) ∧
      low = upperDigit (byte.toNat % 16) ∧
      ((r, x) ∉ unsureCells (Device.pmem.openFile k admits) t s inputs →
        high = upperDigit (byte.toNat / 16)) := by
  obtain ⟨editor, memory⟩ := device_started found starts
  have inside : s.editor.InWindow t := by
    rw [editor]
    exact start_inWindow t _ inputAddr
  have shows : ScreenShows k admits t [] s := by
    have aligned : s.editor.topAddr.toNat % 16 = 0 := by
      rw [editor]
      exact (start_drawn t _ inputAddr).aligned
    refine ⟨inside, aligned, fun second => ?_, fun r row x column visible => ?_⟩
    · rw [editor] at second
      cases second
    · refine redraw_cell (c := c) aligned ?_ row column visible rfl
      rw [editor, memory]
      rfl
  obtain ⟨written, requests, spares⟩ := pmem_spares runs
  rw [show s.editor.requests = [] by rw [editor, start], List.nil_append] at requests
  subst requests
  have preserved (cells : List (Nat × Nat)) (s : Session Opened) (input : Input) (next : Session Opened) :
      ScreenShows k admits t cells s →
      k.Finds s.file.memory ∧ s.Spares Opened.memory (Device.pmem.Spares k) input →
      Session.turn (Device.pmem.openFile k admits) t s input = .ok next →
      ScreenShows k admits t (s.editor.unsure t input.key cells) next :=
    fun shows both => shows.turn both.1 both.2
  have shown := carry_invariant (ScreenShows k admits t) preserved shows (finds.and (spares spared)) runs
  obtain ⟨pair, known⟩ := shown.cell r row x column visible
  exact ⟨pair.1, pair.2, known.drawn, known.low, known.high⟩

/-- `42` typed over the `11` at `0x200000`. -/
theorem screen_shows_memory_sample :
    let file := Device.pmem.openFile sampleKernel fun _ => true
    let inputs := [ord '4', ord '2'].map sampleInput
    ∃ s final, Session.start file sampleTerminal 0 0x200000#64 sampleOpened = .ok s ∧
      run (Session.turn file sampleTerminal) s inputs = .ok final ∧
      let byte := final.file.memory ((final.editor.topAddr + BitVec.ofNat 64 (16 * 0 + 0)).toNat % 2 ^ 52)
      ∃ high low, hexAt final.editor.screen 0 0 = some (high, low) ∧
        low = upperDigit (byte.toNat % 16) ∧
        ((0, 0) ∉ unsureCells file sampleTerminal s inputs → high = upperDigit (byte.toNat / 16)) := by
  intro file inputs
  obtain ⟨s, starts⟩ := Session.start_returns (pmem_returns sampleKernel fun _ => true)
    sampleTerminal 0 0x200000#64 sampleOpened
  have stays : ∀ input ∈ inputs, input.key ≠ ctrl 'X' := by decide
  obtain ⟨final, runs⟩ := Session.run_returns (pmem_returns sampleKernel fun _ => true)
    sampleTerminal s stays
  obtain ⟨top, requests, finds⟩ := sampleKernel_session starts (by decide) (by decide) runs
  refine ⟨s, final, starts, runs, ?_⟩
  have spared : ∀ write ∈ final.editor.requests,
      write.1.toNat / 4096 % 2 ^ 40 ≠ sampleKernel.pagedPte / 4096 := by
    rw [requests]
    exact List.forall_mem_singleton.mpr (by decide)
  refine screen_shows_memory sampleOpened_finds starts finds runs spared (by decide) (by decide) ?_
  rw [State.Visible, State.cellAddress, top]
  exact ⟨rfl, by decide⟩

end TestPrograms.Editor
