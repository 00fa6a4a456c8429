import TestPrograms.Editor.Program

/-! # Under the cursor

Every key keeps the cursor in the window and the window drawn from `top_addr` on, so that
what is written is asked for at the byte the cursor stands on.  `State.Effect` says once what
a key can do.
-/

namespace TestPrograms.Editor

open TestPrograms.Foundations

/-- The value of a hex digit. -/
def hexValue (c : Int) : Int :=
  if c ≤ ord '9' then c - ord '0' else if c ≤ ord 'F' then c - ord 'A' + 10 else c - ord 'a' + 10

/-- The rows that a key scrolls the window by. -/
def State.scrolled (t : Terminal) (e : State) (c : Int) : Int :=
  if c ∈ upKeys then if 0 < e.y then 0 else -1
  else if c ∈ downKeys then if e.y < t.lines - 6 then 0 else 1
  else if c = ctrl 'F' then t.lines - 6
  else if c = ctrl 'B' then -(t.lines - 6)
  else 0

structure State.InWindow (t : Terminal) (e : State) : Prop where
  column : 0 ≤ e.x ∧ e.x ≤ 15
  row : 0 ≤ e.y ∧ e.y ≤ t.lines - 6
  half : e.n = 0 ∨ e.n = 1

/-- The screen shows the memory from `top_addr` on, row by row. -/
structure State.Drawn (t : Terminal) (e : State) : Prop where
  aligned : e.topAddr.toNat % 16 = 0
  labels : ∀ r < (t.lines - 5).toNat, (e.screen[r]?).map Row.label =
    some (hexText 16 (e.topAddr + BitVec.ofNat 64 (r <<< 4)).toNat)

/-- What a key can do to a state. -/
inductive State.Effect (t : Terminal) (press : Press) (e : State) : State → Prop where
  | move (x y : Int) (plain : ¬ isxdigit press.key) (column : 0 ≤ x ∧ x ≤ 15)
      (row : 0 ≤ y ∧ y ≤ t.lines - 6) :
    Effect t press e { e with n := 0, x, y }
  | keep (plain : ¬ isxdigit press.key) (still : e.scrolled t press.key = 0) : Effect t press e e
  | scroll (autoredraw : Bool) (plain : ¬ isxdigit press.key) :
    Effect t press e ({ e with
      topAddr := e.topAddr + BitVec.ofInt 64 (e.scrolled t press.key * 16)
      autoredraw }.redraw t press.view)
  | digit (typed : isxdigit press.key) : Effect t press e (e.digit t press.key)

section

variable {t : Terminal} {e : State}

/-! ## What a key does -/

theorem State.scrolled_other {c : Int} (notUp : c ∉ upKeys) (notDown : c ∉ downKeys)
    (notF : c ≠ ctrl 'F') (notB : c ≠ ctrl 'B') : e.scrolled t c = 0 := by
  rw [scrolled, if_neg notUp, if_neg notDown, if_neg notF, if_neg notB]

theorem arrow_plain {c : Int}
    (arrow : c ∈ upKeys ∨ c ∈ downKeys ∨ c ∈ leftKeys ∨ c ∈ rightKeys) : ¬ isxdigit c := by
  have all : ∀ c ∈ upKeys ++ (downKeys ++ (leftKeys ++ rightKeys)), ¬ isxdigit c := by decide
  exact all c (by simpa only [List.mem_append] using arrow)

theorem State.key_effect (press : Press) (inside : e.InWindow t) :
    e.Effect t press (e.key t press) := by
  have columns := inside.column
  have rows := inside.row
  have scrolls : ∀ (rows : Int) {top : Addr} (autoredraw : Bool), ¬ isxdigit press.key →
      e.scrolled t press.key = rows → top = e.topAddr + BitVec.ofInt 64 (rows * 16) →
      e.Effect t press ({ e with topAddr := top, autoredraw }.redraw t press.view) := by
    intro rows top autoredraw plain scrolled moved
    rw [moved, ← scrolled]
    exact .scroll autoredraw plain
  have redraws : ∀ autoredraw : Bool, ¬ isxdigit press.key → e.scrolled t press.key = 0 →
      e.Effect t press ({ e with autoredraw }.redraw t press.view) :=
    fun autoredraw plain still => scrolls 0 autoredraw plain still (BitVec.add_zero _).symm
  rw [State.key]
  by_cases up : press.key ∈ upKeys
  · have plain := arrow_plain (.inl up)
    rw [if_pos up]
    split
    · exact .move e.x (e.y - 1) plain columns (by omega)
    · rename_i top
      exact scrolls _ e.autoredraw plain (by rw [scrolled, if_pos up, if_neg top])
        (by rw [BitVec.sub_eq_add_neg]; rfl)
  rw [if_neg up]
  by_cases down : press.key ∈ downKeys
  · have plain := arrow_plain (.inr (.inl down))
    rw [if_pos down]
    split
    · exact .move e.x (e.y + 1) plain columns (by omega)
    · rename_i bottom
      exact scrolls _ e.autoredraw plain
        (by rw [scrolled, if_neg up, if_pos down, if_neg bottom]) rfl
  rw [if_neg down]
  by_cases left : press.key ∈ leftKeys
  · have plain := arrow_plain (.inr (.inr (.inl left)))
    rw [if_pos left]
    split
    · exact .move (e.x - 1) e.y plain (by omega) rows
    · exact .keep plain (scrolled_other up down (ne_of_mem_of_not_mem left (by decide))
        (ne_of_mem_of_not_mem left (by decide)))
  rw [if_neg left]
  by_cases right : press.key ∈ rightKeys
  · have plain := arrow_plain (.inr (.inr (.inr right)))
    rw [if_pos right]
    split
    · exact .move (e.x + 1) e.y plain (by omega) rows
    · exact .keep plain (scrolled_other up down (ne_of_mem_of_not_mem right (by decide))
        (ne_of_mem_of_not_mem right (by decide)))
  rw [if_neg right]
  by_cases pageDown : press.key = ctrl 'F'
  · rw [if_pos pageDown]
    refine scrolls _ e.autoredraw (by rw [pageDown]; decide) ?_ rfl
    rw [scrolled, if_neg up, if_neg down, if_pos pageDown]
  rw [if_neg pageDown]
  by_cases pageUp : press.key = ctrl 'B'
  · rw [if_pos pageUp]
    refine scrolls (-(t.lines - 6)) e.autoredraw (by rw [pageUp]; decide) ?_ ?_
    · rw [scrolled, if_neg up, if_neg down, if_neg pageDown, if_pos pageUp]
    · rw [Int.neg_mul, BitVec.ofInt_neg, BitVec.sub_eq_add_neg]
  rw [if_neg pageUp]
  have still : e.scrolled t press.key = 0 := scrolled_other up down pageDown pageUp
  by_cases timeout : press.key = -1
  · have plain : ¬ isxdigit press.key := by rw [timeout]; decide
    rw [if_pos timeout]
    split
    · exact redraws e.autoredraw plain still
    · exact .keep plain still
  rw [if_neg timeout]
  by_cases escape : press.key = 0x1b
  · rw [if_pos escape]
    exact redraws e.autoredraw (by rw [escape]; decide) still
  rw [if_neg escape]
  by_cases toggle : press.key = ctrl 'L'
  · rw [if_pos toggle]
    exact redraws (!e.autoredraw) (by rw [toggle]; decide) still
  rw [if_neg toggle]
  by_cases typed : isxdigit press.key
  · rw [if_pos typed]
    exact .digit typed
  · rw [if_neg typed]
    exact .keep typed still

/-! ## Hex digits -/

theorem hexValue_lt {c : Int} (typed : isxdigit c) : 0 ≤ hexValue c ∧ hexValue c < 16 := by
  simp only [isxdigit, ord] at typed
  simp only [hexValue, ord]
  grind

theorem hexValue_upper {c : Int} (typed : isxdigit c) :
    (let c := if islower c then c - 0x20 else c
      if ord '0' ≤ c ∧ c ≤ ord '9' then c - ord '0' else c - ord 'A' + 10) = hexValue c := by
  simp only [isxdigit, ord] at typed
  simp only [hexValue, islower, ord]
  grind

theorem pair_value {high low : Int} (left : 0 ≤ high ∧ high < 16) (right : 0 ≤ low ∧ low < 16) :
    (BitVec.ofInt 32 high <<< 4 ||| BitVec.ofInt 32 low).setWidth 8 =
      BitVec.ofInt 8 (16 * high + low) := by
  have all : ∀ high low : Fin 16,
      (BitVec.ofInt 32 high.val <<< 4 ||| BitVec.ofInt 32 low.val).setWidth 8 =
        BitVec.ofInt 8 (16 * high.val + low.val) := by decide
  have pair := all ⟨high.toNat, by omega⟩ ⟨low.toNat, by omega⟩
  simpa only [Int.toNat_of_nonneg left.1, Int.toNat_of_nonneg right.1] using pair

def upper (c : Int) : Int := if islower c then c - 0x20 else c

theorem State.digit_first {c : Int} (typed : isxdigit c) (fresh : e.n = 0) :
    e.digit t c = { e.waddch (upper c) with idata := BitVec.ofInt 32 (hexValue c), n := 1 } := by
  have value := hexValue_upper typed
  dsimp only at value
  simp only [digit, fresh, if_true, value, upper]

/-- The state after a second digit has asked for its write. -/
def State.filled (c : Int) (e : State) : State :=
  let idata := e.idata <<< 4 ||| BitVec.ofInt 32 (hexValue c)
  { e.waddch (upper c) with idata, requests := e.requests ++ [(e.cursor, idata.setWidth 8)] }

theorem State.digit_second {c : Int} (typed : isxdigit c) (begun : e.n = 1) :
    e.digit t c = (e.filled c).skipByte t := by
  have value := hexValue_upper typed
  have second : ¬ (1 : Int) = 0 := by decide
  dsimp only at value
  simp only [digit, begun, second, if_false, value, upper, request, waddch, cursor, filled]

theorem State.skipByte_eq (t : Terminal) (e : State) :
    ∃ x y, e.skipByte t = { e with n := 0, x, y } ∧
      (e.InWindow t → (0 ≤ x ∧ x ≤ 15) ∧ 0 ≤ y ∧ y ≤ t.lines - 6) := by
  unfold skipByte
  split
  · exact ⟨_, e.y, rfl, fun inside => ⟨by have := inside.column; omega, inside.row⟩⟩
  split
  · exact ⟨_, _, rfl, fun inside => ⟨by omega, by have := inside.row; omega⟩⟩
  · exact ⟨_, e.y, rfl, fun inside => ⟨by omega, inside.row⟩⟩

theorem State.skipByte_requests (t : Terminal) (e : State) : (e.skipByte t).requests = e.requests := by
  unfold skipByte
  split
  · rfl
  split
  · rfl
  · rfl

/-! ## The invariants -/

theorem State.Effect.inWindow {press : Press} {next : State} (effect : e.Effect t press next)
    (inside : e.InWindow t) : next.InWindow t := by
  cases effect with
  | move x y plain column row => exact ⟨column, row, .inl rfl⟩
  | keep => exact inside
  | scroll => exact ⟨inside.column, inside.row, inside.half⟩
  | digit typed =>
    cases inside.half with
    | inl fresh =>
      rw [digit_first typed fresh]
      exact ⟨inside.column, inside.row, .inr rfl⟩
    | inr begun =>
      rw [digit_second typed begun]
      obtain ⟨x, y, skips, within⟩ := skipByte_eq t (e.filled press.key)
      obtain ⟨column, row⟩ := within ⟨inside.column, inside.row, inside.half⟩
      rw [skips]
      exact ⟨column, row, .inl rfl⟩

theorem drawRows_label (device : Addr → Option Byte) (addr : Addr) {count r : Nat} (y : Nat) (c : Byte)
    (row : r < count) : ((drawRows device addr count y c)[r]?).map Row.label =
      some (hexText 16 (addr + BitVec.ofNat 64 ((y + r) <<< 4)).toNat) := by
  induction count generalizing r y c with
  | zero => omega
  | succ count ih =>
    rw [drawRows]
    cases r with
    | zero => rfl
    | succ r =>
      have later := ih (y + 1) (readCells device (addr + BitVec.ofNat 64 (y <<< 4)) 16 0 c).2
        (Nat.lt_of_succ_lt_succ row)
      rw [List.getElem?_cons_succ, later, Nat.add_assoc, Nat.add_comm 1 r]

theorem and_topMask {addr : Addr} (aligned : addr.toNat % 16 = 0) :
    addr &&& 0xfffffffffffffff0#64 = addr := by
  have low : addr &&& 0xf#64 = 0#64 := by
    apply BitVec.eq_of_toNat_eq
    rw [BitVec.toNat_and]
    exact (Nat.and_two_pow_sub_one_eq_mod addr.toNat 4).trans aligned
  have mask : 0xfffffffffffffff0#64 ||| 0xf#64 = BitVec.allOnes 64 := by decide
  calc addr &&& 0xfffffffffffffff0#64
      = addr &&& 0xfffffffffffffff0#64 ||| addr &&& 0xf#64 := by rw [low, BitVec.or_zero]
    _ = addr := by rw [← BitVec.and_or_distrib_left, mask, BitVec.and_allOnes]

theorem aligned_add_rows {addr : Addr} (rows : Int) (aligned : addr.toNat % 16 = 0) :
    (addr + BitVec.ofInt 64 (rows * 16)).toNat % 16 = 0 := by
  rw [BitVec.toNat_add, BitVec.toNat_ofInt]
  omega

theorem displayMemory_drawn (view : View) {e : State} (aligned : e.topAddr.toNat % 16 = 0)
    (screen : e.screen = displayMemory t view e.topAddr) : e.Drawn t := by
  refine ⟨aligned, fun r row => ?_⟩
  rw [screen, displayMemory, and_topMask aligned, drawRows_label _ _ _ _ row, Nat.zero_add]

theorem State.waddch_labels (c : Int) (e : State) (r : Nat) :
    ((e.waddch c).screen[r]?).map Row.label = (e.screen[r]?).map Row.label := by
  rw [waddch, List.getElem?_modify]
  cases e.screen[r]? with
  | none => rfl
  | some row =>
    simp only [Option.map_some]
    split <;> rfl

theorem State.Effect.drawn {press : Press} {next : State} (effect : e.Effect t press next)
    (inside : e.InWindow t) (drawn : e.Drawn t) : next.Drawn t := by
  cases effect with
  | move => exact ⟨drawn.aligned, drawn.labels⟩
  | keep => exact drawn
  | scroll autoredraw =>
    refine displayMemory_drawn press.view ?_ rfl
    exact aligned_add_rows _ drawn.aligned
  | digit typed =>
    have labels : ∀ r < (t.lines - 5).toNat, ((e.waddch (upper press.key)).screen[r]?).map Row.label =
        some (hexText 16 (e.topAddr + BitVec.ofNat 64 (r <<< 4)).toNat) := fun r row =>
      (waddch_labels _ _ _).trans (drawn.labels r row)
    cases inside.half with
    | inl fresh =>
      rw [digit_first typed fresh]
      exact ⟨drawn.aligned, labels⟩
    | inr begun =>
      rw [digit_second typed begun]
      obtain ⟨x, y, skips, -⟩ := skipByte_eq t (e.filled press.key)
      rw [skips]
      exact ⟨drawn.aligned, labels⟩

theorem State.key_digit {press : Press} (inside : e.InWindow t) (typed : isxdigit press.key) :
    e.key t press = e.digit t press.key := by
  have effect := e.key_effect press inside
  generalize e.key t press = next at effect ⊢
  cases effect with
  | move _ _ plain => exact absurd typed plain
  | keep plain => exact absurd typed plain
  | scroll _ plain => exact absurd typed plain
  | digit => rfl

/-! ## Over a run -/

def xdigits (presses : List Press) : List Int := (presses.map Press.key).filter isxdigit

/-- With a byte half entered, `idata` is the last hex digit of the keys so far. -/
def State.Half (past : List Press) (e : State) : Prop :=
  e.n = 1 → ∃ front high, xdigits past = front ++ [high] ∧ isxdigit high ∧
    e.idata = BitVec.ofInt 32 (hexValue high)

theorem xdigits_typed {past : List Press} {press : Press} (typed : isxdigit press.key) :
    xdigits (past ++ [press]) = xdigits past ++ [press.key] := by
  simp [xdigits, typed]

theorem xdigits_plain {past : List Press} {press : Press} (plain : ¬ isxdigit press.key) :
    xdigits (past ++ [press]) = xdigits past := by
  simp [xdigits, plain]

theorem State.Effect.half {past : List Press} {press : Press} {next : State}
    (effect : e.Effect t press next) (inside : e.InWindow t) (half : e.Half past) :
    next.Half (past ++ [press]) := by
  intro begun
  cases effect with
  | move => cases begun
  | keep plain =>
    rw [xdigits_plain plain]
    exact half begun
  | scroll autoredraw plain =>
    rw [xdigits_plain plain]
    exact half begun
  | digit typed =>
    cases inside.half with
    | inl fresh =>
      rw [digit_first typed fresh, xdigits_typed typed]
      exact ⟨_, _, rfl, typed, rfl⟩
    | inr second =>
      obtain ⟨x, y, skips, -⟩ := skipByte_eq t (e.filled press.key)
      rw [digit_second typed second, skips] at begun
      cases begun

theorem start_inWindow (t : Terminal) (view : View) (inputAddr : Addr) :
    (start t view inputAddr).InWindow t := by
  have column : (inputAddr &&& 0xf#64).toNat = inputAddr.toNat % 16 := by
    rw [BitVec.toNat_and]
    exact Nat.and_two_pow_sub_one_eq_mod inputAddr.toNat 4
  have tall := t.tall
  refine ⟨?_, ⟨Int.le_refl _, by simp only [start]; omega⟩, .inl rfl⟩
  simp only [start, column]
  omega

theorem start_drawn (t : Terminal) (view : View) (inputAddr : Addr) :
    (start t view inputAddr).Drawn t := by
  refine displayMemory_drawn view ?_ rfl
  have low : inputAddr &&& ~~~0xf#64 &&& 0xf#64 = 0#64 := by
    rw [BitVec.and_assoc, show ~~~0xf#64 &&& 0xf#64 = 0#64 by decide, BitVec.and_zero]
  calc (inputAddr &&& ~~~0xf#64).toNat % 16
      = (inputAddr &&& ~~~0xf#64 &&& 0xf#64).toNat := by
        rw [BitVec.toNat_and (inputAddr &&& ~~~0xf#64)]
        exact (Nat.and_two_pow_sub_one_eq_mod _ 4).symm
    _ = 0 := by rw [low]; rfl

theorem turn_inv {press : Press} {next : State} (steps : turn t e press = .ok next) :
    next = e.key t press := by
  unfold turn at steps
  split at steps
  · exact (Except.ok.inj steps).symm
  · cases steps

/-- What holds at the head of the loop. -/
structure State.Ready (t : Terminal) (past : List Press) (e : State) : Prop where
  inside : e.InWindow t
  drawn : e.Drawn t
  half : e.Half past

theorem ready_of_run {view : View} {inputAddr : Addr} {presses : List Press}
    (reaches : run (turn t) (start t view inputAddr) presses = .ok e) : e.Ready t presses := by
  rw [← List.nil_append presses]
  refine run_history (State.Ready t) ?_ ?_ reaches
  · intro past state press next ready steps
    have effect := state.key_effect press ready.inside
    rw [turn_inv steps]
    exact ⟨effect.inWindow ready.inside, effect.drawn ready.inside ready.drawn,
      effect.half ready.inside ready.half⟩
  · exact ⟨start_inWindow t view inputAddr, start_drawn t view inputAddr, fun begun => by cases begun⟩

theorem State.cursor_eq (e : State) : e.cursor = e.topAddr + BitVec.ofInt 64 (16 * e.y + e.x) := by
  rw [cursor, BitVec.ofInt_add, Int.mul_comm, BitVec.add_assoc]

/-- The address at the left of the cursor's row tells where the cursor is. -/
theorem State.Drawn.label_iff (drawn : e.Drawn t) (inside : e.InWindow t) :
    ∃ row, e.screen[e.y.toNat]? = some row ∧
      ∀ shown : Addr, row.label = hexText 16 shown.toNat ↔ e.cursor = shown + BitVec.ofInt 64 e.x := by
  have rows := inside.row
  have label := drawn.labels e.y.toNat (by omega)
  obtain ⟨row, there, label⟩ := Option.map_eq_some_iff.mp label
  have offset : BitVec.ofNat 64 (e.y.toNat <<< 4) = BitVec.ofInt 64 (e.y * 16) := by
    obtain ⟨y, at'⟩ := Int.eq_ofNat_of_zero_le rows.1
    rw [at', Nat.shiftLeft_eq]
    exact (BitVec.ofInt_natCast 64 (y * 16)).symm
  rw [offset] at label
  refine ⟨row, there, fun shown => ?_⟩
  rw [label, cursor, BitVec.add_left_inj]
  constructor
  · intro same
    exact BitVec.eq_of_toNat_eq (hexText_inj (BitVec.isLt _) (BitVec.isLt _) same)
  · rintro rfl
    rfl

/-- Of the keys only a second digit asks for a write: of the byte of the last two digits, at the
    cursor. -/
theorem State.Ready.key_requests {past : List Press} (ready : e.Ready t past) (press : Press) :
    (e.key t press).requests = e.requests ∨ e.n = 1 ∧
      ∃ front high low, xdigits (past ++ [press]) = front ++ [high, low] ∧
        (e.key t press).requests =
          e.requests ++ [(e.cursor, BitVec.ofInt 8 (16 * hexValue high + hexValue low))] := by
  have effect := e.key_effect press ready.inside
  generalize e.key t press = next at effect ⊢
  cases effect with
  | move => exact .inl rfl
  | keep => exact .inl rfl
  | scroll => exact .inl rfl
  | digit typed =>
    cases ready.inside.half with
    | inl fresh =>
      rw [digit_first typed fresh]
      exact .inl rfl
    | inr begun =>
      obtain ⟨front, high, last, digit, idata⟩ := ready.half begun
      obtain ⟨x, y, skips, -⟩ := skipByte_eq t (e.filled press.key)
      refine .inr ⟨begun, front, high, press.key, by rw [xdigits_typed typed, last]; simp, ?_⟩
      rw [digit_second typed begun, skips, ← pair_value (hexValue_lt digit) (hexValue_lt typed),
        ← idata]
      rfl

end

def sampleTerminal : Terminal := { lines := 7, tall := by decide, int := by decide }

end TestPrograms.Editor
