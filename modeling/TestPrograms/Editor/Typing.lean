import Mathlib.Data.Fintype.Card
import Mathlib.Data.List.Nodup
import TestPrograms.Editor.Drive

/-! # Typing a string of digits

Behind each written byte the cursor goes to the next one, from the end of a row to the row
below.  At the end of the last row nothing scrolls: the cursor goes back to the start of
that row, and the bytes that follow are written over it.  Where a seek fails, the byte goes
to where the file stands instead.
-/

namespace TestPrograms.Editor

open TestPrograms.Foundations

/-- The bytes that hex digits spell in pairs. -/
def typedBytes : List Int → List Byte
  | high :: low :: digits =>
    BitVec.ofInt 8 (16 * hexValue high + hexValue low) :: typedBytes digits
  | _ => []

/-- The pairs of the digits go to the addresses from `addr` on, and none to one twice. -/
structure Fills (addr : Addr) (digits : List Int) (written : List (Addr × Byte)) : Prop where
  pairs : written = (typedBytes digits).mapIdx fun i byte => (addr + BitVec.ofNat 64 i, byte)
  once : (written.map Prod.fst).Nodup

/-! ## Positions in the window -/

def State.position (e : State) : Int := 16 * e.y + e.x

/-- Where the cursor goes from position `p`. -/
def skip (t : Terminal) (p : Int) : Int := if p + 1 < 16 * (t.lines - 5) then p + 1 else p - 15

/-- What typed bytes are written as, from position `p` on. -/
def fill (t : Terminal) (topAddr : Addr) : Int → List Byte → List (Addr × Byte)
  | _, [] => []
  | p, byte :: bytes => (topAddr + BitVec.ofInt 64 p, byte) :: fill t topAddr (skip t p) bytes

section

variable {t : Terminal} {e : State}

/-- Bytes typed from position `p` are written one behind the other exactly if they fit into the
    rest of the window. -/
theorem fill_eq_iff {topAddr addr : Addr} {p : Int} {bytes : List Byte}
    (low : 0 ≤ p) (high : p < 16 * (t.lines - 5)) (here : addr = topAddr + BitVec.ofInt 64 p) :
    fill t topAddr p bytes = (bytes.mapIdx fun i byte => (addr + BitVec.ofNat 64 i, byte)) ↔
      p + bytes.length ≤ 16 * (t.lines - 5) := by
  induction bytes generalizing p addr with
  | nil => simpa [fill] using high.le
  | cons byte bytes ih =>
    have next : addr + BitVec.ofNat 64 1 = topAddr + BitVec.ofInt 64 (p + 1) := by
      rw [here, BitVec.ofInt_add, ← BitVec.add_assoc]
      rfl
    have shift : (fun i (byte : Byte) => (addr + BitVec.ofNat 64 (i + 1), byte)) =
        fun i byte => (addr + BitVec.ofNat 64 1 + BitVec.ofNat 64 i, byte) := by
      funext i byte
      rw [BitVec.add_assoc, ← BitVec.ofNat_add, Nat.add_comm]
    have first : topAddr + BitVec.ofInt 64 p = addr + BitVec.ofNat 64 0 := by
      rw [here]
      exact (BitVec.add_zero _).symm
    rw [fill, List.mapIdx_cons, first, List.cons_eq_cons, List.length_cons, shift]
    simp only [true_and]
    by_cases fits : p + 1 < 16 * (t.lines - 5)
    · rw [skip, if_pos fits, ih (by omega) fits next]
      omega
    · cases bytes with
      | nil =>
        simp only [fill, List.mapIdx_nil, List.length_nil, true_iff]
        omega
      | cons second bytes =>
        refine iff_of_false ?_ (by simp only [List.length_cons]; omega)
        rw [skip, if_neg fits, fill, List.mapIdx_cons, next]
        intro same
        -- the second byte goes to the start of the row, sixteen bytes too low
        have address := congrArg Prod.fst (List.cons.inj same).1
        have apart : BitVec.ofInt 64 (p - 15) = BitVec.ofInt 64 (p + 1) := by
          simpa using address
        have value := congrArg BitVec.toNat apart
        rw [BitVec.toNat_ofInt, BitVec.toNat_ofInt] at value
        omega

/-- There are no more different addresses than 2^64. -/
theorem Fills.length_le {addr : Addr} {digits : List Int} {written : List (Addr × Byte)}
    (fills : Fills addr digits written) : written.length ≤ 2 ^ 64 := by
  have injective : Function.Injective (BitVec.toFin (w := 64)) := fun _ _ same => BitVec.eq_of_toFin_eq same
  have short := (fills.once.map injective).length_le_card
  rwa [List.length_map, List.length_map, Fintype.card_fin] at short

/-! ## Keys -/

/-- The digit that a half-entered byte has already. -/
inductive State.Pending (e : State) : List Int → Prop where
  | none (fresh : e.n = 0) : Pending e []
  | one (high : Int) (begun : e.n = 1) (typed : isxdigit high)
      (idata : e.idata = BitVec.ofInt 32 (hexValue high)) : Pending e [high]

theorem State.key_timeout {press : Press} (timeout : press.key = -1) :
    ∃ screen, e.key t press = { e with screen } := by
  rw [key, timeout, if_neg (by decide), if_neg (by decide), if_neg (by decide),
    if_neg (by decide), if_neg (by decide), if_neg (by decide), if_pos rfl]
  split
  · exact ⟨_, rfl⟩
  · exact ⟨e.screen, rfl⟩

theorem State.skipByte_position (inside : e.InWindow t) :
    (e.skipByte t).position = skip t e.position := by
  have columns := inside.column
  have rows := inside.row
  unfold skipByte skip position
  split
  · rw [if_pos (by omega)]
    dsimp only
    omega
  split
  · rw [if_pos (by omega)]
    dsimp only
    omega
  · rw [if_neg (by omega)]
    dsimp only
    omega

theorem stays_of_typed {c : Int} (key : isxdigit c ∨ c = -1) : c ≠ ctrl 'X' := by
  rintro rfl
  revert key
  decide

theorem turn_ok {press : Press} (stays : press.key ≠ ctrl 'X') :
    turn t e press = .ok (e.key t press) := if_pos stays

theorem State.cursor_position (e : State) : e.cursor = e.topAddr + BitVec.ofInt 64 e.position :=
  e.cursor_eq

/-- A second digit writes its byte at the cursor and leaves the cursor behind it. -/
theorem State.key_second {press : Press} {high : Int} (inside : e.InWindow t) (begun : e.n = 1)
    (first : isxdigit high) (idata : e.idata = BitVec.ofInt 32 (hexValue high))
    (typed : isxdigit press.key) :
    (e.key t press).n = 0 ∧ (e.key t press).topAddr = e.topAddr ∧
      (e.key t press).position = skip t e.position ∧
      (e.key t press).requests = e.requests ++
        [(e.cursor, BitVec.ofInt 8 (16 * hexValue high + hexValue press.key))] := by
  have filled : (e.filled press.key).InWindow t := ⟨inside.column, inside.row, inside.half⟩
  obtain ⟨x, y, skips, -⟩ := skipByte_eq t (e.filled press.key)
  rw [key_digit inside typed, digit_second typed begun, skipByte_position filled, skips,
    ← pair_value (hexValue_lt first) (hexValue_lt typed), ← idata]
  exact ⟨rfl, rfl, rfl, rfl⟩

theorem run_typed {presses : List Press} {pending : List Int} (inside : e.InWindow t)
    (half : e.Pending pending) (keys : ∀ press ∈ presses, isxdigit press.key ∨ press.key = -1) :
    ∃ final, run (turn t) e presses = .ok final ∧ final.topAddr = e.topAddr ∧ final.requests =
      e.requests ++ fill t e.topAddr e.position (typedBytes (pending ++ xdigits presses)) := by
  induction presses generalizing e pending with
  | nil =>
    refine ⟨e, rfl, rfl, ?_⟩
    cases half <;> exact (List.append_nil _).symm
  | cons press presses ih =>
    have later : ∀ other ∈ presses, isxdigit other.key ∨ other.key = -1 :=
      fun other member => keys other (List.mem_cons_of_mem _ member)
    have stays := stays_of_typed (keys press List.mem_cons_self)
    have inside' := (e.key_effect press inside).inWindow inside
    cases keys press List.mem_cons_self with
    | inl typed =>
      have digits : xdigits (press :: presses) = press.key :: xdigits presses := by
        simp [xdigits, typed]
      rw [run_cons_ok presses (turn_ok stays), digits]
      cases half with
      | none fresh =>
        have next := (State.key_digit inside typed).trans (State.digit_first typed fresh)
        rw [next] at inside' ⊢
        exact ih inside' (.one _ rfl typed rfl) later
      | one high begun first idata =>
        obtain ⟨dropped, top, position, writes⟩ := State.key_second inside begun first idata typed
        obtain ⟨final, ends, kept, fills⟩ := ih inside' (.none dropped) later
        refine ⟨final, ends, kept.trans top, ?_⟩
        rw [fills, writes, top, position, List.append_assoc, State.cursor_position]
        rfl
    | inr timeout =>
      have digits : xdigits (press :: presses) = xdigits presses := by
        simp [xdigits, timeout, show isxdigit (-1) = false by decide]
      rw [run_cons_ok presses (turn_ok stays), digits]
      obtain ⟨screen, next⟩ := e.key_timeout (t := t) timeout
      rw [next] at inside' ⊢
      refine ih inside' ?_ later
      cases half with
      | none fresh => exact .none fresh
      | one high begun first idata => exact .one high begun first idata

/-- What a session asks to write in which digits are typed, on whatever file.  The window stays. -/
theorem Session.requests_of_typed {φ ε : Type} {file : OpenFile φ Addr Byte ε} {s final : Session φ}
    {inputs : List Input} (inside : s.editor.InWindow t) (fresh : s.editor.n = 0)
    (keys : ∀ input ∈ inputs, isxdigit input.key ∨ input.key = -1)
    (runs : run (Session.turn file t) s inputs = .ok final) :
    final.editor.topAddr = s.editor.topAddr ∧ final.editor.requests = s.editor.requests ++
      fill t s.editor.topAddr s.editor.position (typedBytes (typedDigits inputs)) := by
  obtain ⟨presses, same, reaches, -⟩ := Session.editor_of_run runs
  have pressed : ∀ press ∈ presses, isxdigit press.key ∨ press.key = -1 := by
    intro press member
    have key : press.key ∈ inputs.map Input.key := same ▸ List.mem_map_of_mem member
    obtain ⟨input, there, key⟩ := List.mem_map.mp key
    exact key ▸ keys input there
  obtain ⟨last, lasts, filled⟩ := run_typed inside (.none fresh) pressed
  obtain rfl : last = final.editor := Except.ok.inj (lasts.symm.trans reaches)
  rwa [List.nil_append, xdigits_of_keys same] at filled

end

/-! ## On a file -/

/-- How many rows below the last one the `i`th byte behind position `p` would be in: so often the
    cursor has been sent back by a row when it is written. -/
def rowsBelow (t : Terminal) (p : Int) (i : Nat) : Nat := ((p + i) / 16 - (t.lines - 6)).toNat

section

variable {d : Drive} {t : Terminal}

theorem skip_rowsBelow (p : Int) (i : Nat) :
    skip t (p + i - 16 * rowsBelow t p i) = p + (i + 1 : Nat) - 16 * rowsBelow t p (i + 1) := by
  unfold skip rowsBelow
  split <;> omega

/-- How far a session has come that types digits: `i` bytes have been written since `s`. -/
structure Session.Typed (t : Terminal) (s s' : Session Handle) (i : Nat) : Prop where
  inside : s'.editor.InWindow t
  count : s'.file.written.length = s.file.written.length + i
  top : s'.editor.topAddr = s.editor.topAddr
  position : s'.editor.position = s.editor.position + i - 16 * rowsBelow t s.editor.position i

/-- A key that writes nothing: its digit, if it is one, is pending behind it. -/
theorem Session.Typed.quiet {s s' next : Session Handle} {i : Nat} {pending : List Int} {input : Input}
    (typed : s.Typed t s' i) (half : s'.editor.Pending pending)
    (key : isxdigit input.key ∨ input.key = -1) (returns : s'.key d.file t input = .ok next)
    (first : ¬ (s'.editor.n ≠ 0 ∧ isxdigit input.key)) (nothing : next.file.written = s'.file.written) :
    s.Typed t next i ∧ next.editor.Pending (pending ++ typedDigits [input]) := by
  obtain ⟨view, editor⟩ := Session.key_editor returns
  have inside : next.editor.InWindow t :=
    editor ▸ (s'.editor.key_effect _ typed.inside).inWindow typed.inside
  by_cases digit : isxdigit (Press.mk input.key view).key
  · -- a first digit
    have digits : typedDigits [input] = [input.key] := List.filter_cons_of_pos digit
    have fresh : s'.editor.n = 0 := not_not.mp fun second => first ⟨second, digit⟩
    have begins := (State.key_digit typed.inside digit).trans (State.digit_first digit fresh)
    rw [← editor] at begins
    rw [digits]
    constructor
    · refine ⟨inside, by rw [nothing, typed.count], by rw [begins]; exact typed.top, ?_⟩
      rw [begins]
      exact typed.position
    · cases half with
      | none => exact .one _ (by rw [begins]) digit (by rw [begins])
      | one high begun => omega
  · -- a time-out
    have timeout : (Press.mk input.key view).key = -1 := key.resolve_left digit
    have digits : typedDigits [input] = [] := List.filter_cons_of_neg digit
    obtain ⟨screen, redrawn⟩ := s'.editor.key_timeout timeout
    rw [← editor] at redrawn
    rw [digits, List.append_nil]
    constructor
    · refine ⟨inside, by rw [nothing, typed.count], by rw [redrawn]; exact typed.top, ?_⟩
      rw [redrawn]
      exact typed.position
    · rw [redrawn]
      cases half with
      | none fresh => exact .none fresh
      | one high begun first idata => exact .one high begun first idata

/-- A second digit: it writes the byte of the two, and nothing is pending behind it. -/
theorem Session.Typed.second {s s' next : Session Handle} {i : Nat} {pending : List Int} {input : Input}
    (typed : s.Typed t s' i) (half : s'.editor.Pending pending) (returns : s'.key d.file t input = .ok next)
    (begun : s'.editor.n ≠ 0) (digit : isxdigit input.key) :
    ∃ high, pending = [high] ∧ s.Typed t next (i + 1) ∧ next.editor.Pending [] ∧
      next.file.written = s'.file.written ++ [(d.target s'.file s'.editor.cursor,
        BitVec.ofInt 8 (16 * hexValue high + hexValue input.key))] := by
  cases half with
  | none fresh => exact absurd fresh begun
  | one high one first idata =>
    obtain ⟨view, editor⟩ := Session.key_editor returns
    have inside : next.editor.InWindow t :=
      editor ▸ (s'.editor.key_effect _ typed.inside).inWindow typed.inside
    obtain ⟨dropped, top, position, asked⟩ :=
      State.key_second typed.inside one first idata (show isxdigit (Press.mk input.key view).key from digit)
    rw [← editor] at dropped top position asked
    obtain ⟨quiet, -⟩ | ⟨-, -, byte, asked', wrote⟩ := Drive.key_written returns
    · exact absurd ⟨begun, digit⟩ quiet
    obtain rfl : byte = BitVec.ofInt 8 (16 * hexValue high + hexValue input.key) := by
      simpa using asked'.symm.trans asked
    refine ⟨high, rfl, ⟨inside, ?_, top.trans typed.top, ?_⟩, .none dropped, wrote⟩
    · rw [wrote, List.length_append, typed.count]
      rfl
    · rw [position, typed.position, skip_rowsBelow]

end

end TestPrograms.Editor
