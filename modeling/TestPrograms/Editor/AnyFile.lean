import TestPrograms.Editor.Cursor
import TestPrograms.Editor.Session

/-! # The editor on any file

Whatever the calls on the file do, the variables go through the keys as they do with some
device in each turn, and only a second digit writes: it asks for its byte at the cursor.
-/

namespace TestPrograms.Editor

open TestPrograms.Foundations

section

variable {φ ε : Type} {file : OpenFile φ Addr Byte ε} {t : Terminal}

/-! ## What a redraw draws -/

/-- The cells that are drawn are those of a device that gives the answers the file gave. -/
theorem fetchCells_answers {addr : Addr} {count x : Nat} {c last : Byte} {f g : φ} {cells : List Byte}
    (returns : fetchCells file addr count x c f = .ok (cells, last, g)) :
    ∃ answers : Nat → Option Byte, ∀ device : Addr → Option Byte,
      (∀ i, x ≤ i → i < x + count → device (addr + BitVec.ofNat 64 i) = answers i) →
        readCells device addr count x c = (cells, last) := by
  induction count generalizing x c f cells with
  | zero =>
    cases returns
    exact ⟨fun _ => none, fun _ _ => rfl⟩
  | succ count ih =>
    obtain ⟨⟨byte, f'⟩, read, returns⟩ := bind_ok.mp returns
    obtain ⟨⟨rest, last', g'⟩, fetched, returns⟩ := bind_ok.mp returns
    cases returns
    obtain ⟨answers, later⟩ := ih fetched
    refine ⟨fun i => if i = x then byte else answers i, fun device same => ?_⟩
    dsimp only at same
    have first := same x (Nat.le_refl x) (by omega)
    rw [if_pos rfl] at first
    have others := later device fun i low high => by
      rw [same i (by omega) (by omega), if_neg (by omega)]
    rw [readCells, first, others]

theorem fetchRows_answers {addr : Addr} {count y : Nat} {c : Byte} {f g : φ} {rows : List Row}
    (returns : fetchRows file addr count y c f = .ok (rows, g)) :
    ∃ answers : Nat → Option Byte, ∀ device : Addr → Option Byte,
      (∀ i, 16 * y ≤ i → i < 16 * (y + count) → device (addr + BitVec.ofNat 64 i) = answers i) →
        drawRows device addr count y c = rows := by
  induction count generalizing y c f rows with
  | zero =>
    cases returns
    exact ⟨fun _ => none, fun _ _ => rfl⟩
  | succ count ih =>
    obtain ⟨⟨cells, last, f'⟩, fetched, returns⟩ := bind_ok.mp returns
    obtain ⟨⟨rest, g'⟩, drawn, returns⟩ := bind_ok.mp returns
    cases returns
    obtain ⟨row, first⟩ := fetchCells_answers fetched
    obtain ⟨answers, later⟩ := ih drawn
    refine ⟨fun i => if i < 16 * (y + 1) then row (i - 16 * y) else answers i, fun device same => ?_⟩
    dsimp only at same
    have cells := first device fun i _ high => by
      have here := same (16 * y + i) (by omega) (by omega)
      rw [if_pos (by omega), Nat.add_sub_cancel_left] at here
      rw [Nat.shiftLeft_eq, Nat.mul_comm, BitVec.add_assoc, ← BitVec.ofNat_add]
      exact here
    have others := later device fun i low high => by
      rw [same i (by omega) (by omega), if_neg (by omega)]
    simp only [drawRows, cells, others]

/-- The cells of a window have different addresses, so that there is one device for all. -/
theorem displayFile_view {c : Byte} {addr : Addr} {f g : φ} {screen : List Row}
    (returns : displayFile file t c addr f = .ok (screen, g)) :
    ∃ view, screen = displayMemory t view addr := by
  have int := t.int
  obtain ⟨answers, rows⟩ := fetchRows_answers returns
  let base := addr &&& 0xfffffffffffffff0#64
  refine ⟨{ device := fun address => answers (address - base).toNat, c }, ?_⟩
  refine (rows _ fun i _ high => ?_).symm
  have small : i < 2 ^ 64 := by omega
  have offset : (base + BitVec.ofNat 64 i - base).toNat = i := by
    rw [BitVec.add_comm, BitVec.add_sub_cancel, BitVec.toNat_ofNat, Nat.mod_eq_of_lt small]
  dsimp only [base] at offset ⊢
  rw [offset]

theorem Session.redraw_view {c : Byte} {s next : Session φ} (returns : s.redraw file t c = .ok next) :
    ∃ view, next.editor = s.editor.redraw t view := by
  obtain ⟨⟨screen, f⟩, drawn, returns⟩ := bind_ok.mp returns
  cases returns
  obtain ⟨view, screen⟩ := displayFile_view drawn
  exact ⟨view, by rw [screen]; rfl⟩

theorem Session.start_view {c : Byte} {inputAddr : Addr} {opened : φ} {s : Session φ}
    (returns : Session.start file t c inputAddr opened = .ok s) :
    ∃ view, s.editor = Editor.start t view inputAddr := by
  obtain ⟨⟨screen, f⟩, drawn, returns⟩ := bind_ok.mp returns
  cases returns
  obtain ⟨view, screen⟩ := displayFile_view drawn
  exact ⟨view, by rw [screen]; rfl⟩

/-! ## What a key does -/

/-- A key changes variables only, or it redraws the window, or it is a digit; what it does to the
    variables it does with any device. -/
inductive Session.Effect (file : OpenFile φ Addr Byte ε) (t : Terminal) (input : Input) (s : Session φ) :
    Except ε (Session φ) → Prop where
  | plain (e : State) (same : e.requests = s.editor.requests) (still : ¬ isxdigit input.key)
      (key : ∀ view, s.editor.key t { key := input.key, view } = e) :
    Effect file t input s (.ok { s with editor := e })
  | redraw (e : State) (same : e.requests = s.editor.requests) (still : ¬ isxdigit input.key)
      (key : ∀ view, s.editor.key t { key := input.key, view } = e.redraw t view) :
    Effect file t input s (({ s with editor := e } : Session φ).redraw file t input.c)
  | digit (typed : isxdigit input.key)
      (key : ∀ view, s.editor.key t { key := input.key, view } = s.editor.digit t input.key) :
    Effect file t input s (s.digit file t input.key)

/-- An arrow up or down moves the cursor, or it scrolls at the edge. -/
theorem Session.Effect.scroll {input : Input} {s : Session φ} {inside : Prop} [Decidable inside] {e e' : State}
    (still : ¬ isxdigit input.key) (same : e.requests = s.editor.requests)
    (same' : e'.requests = s.editor.requests)
    (key : ∀ view, s.editor.key t { key := input.key, view } = if inside then e else e'.redraw t view) :
    s.Effect file t input (if inside then .ok { s with editor := e }
      else ({ s with editor := e' } : Session φ).redraw file t input.c) := by
  split
  · rename_i moves
    simp only [if_pos moves] at key
    exact .plain _ same still key
  · rename_i edge
    simp only [if_neg edge] at key
    exact .redraw _ same' still key

/-- An arrow to the left or right moves the cursor, or it stays at the edge. -/
theorem Session.Effect.move {input : Input} {s : Session φ} {inside : Prop} [Decidable inside] {e e' : State}
    (still : ¬ isxdigit input.key) (same : e.requests = s.editor.requests)
    (same' : e'.requests = s.editor.requests)
    (key : ∀ view, s.editor.key t { key := input.key, view } = if inside then e else e') :
    s.Effect file t input (if inside then .ok { s with editor := e } else .ok { s with editor := e' }) := by
  split
  · rename_i moves
    simp only [if_pos moves] at key
    exact .plain _ same still key
  · rename_i edge
    simp only [if_neg edge] at key
    exact .plain _ same' still key

theorem Session.key_effect (file : OpenFile φ Addr Byte ε) (t : Terminal) (input : Input) (s : Session φ) :
    s.Effect file t input (s.key file t input) := by
  have key (view : View) := State.key.eq_1 t { key := input.key, view } s.editor
  rw [Session.key]
  dsimp only at key ⊢
  by_cases up : input.key ∈ upKeys
  · simp only [if_pos up] at key ⊢
    exact .scroll (arrow_plain (.inl up)) rfl rfl key
  simp only [if_neg up] at key ⊢
  by_cases down : input.key ∈ downKeys
  · simp only [if_pos down] at key ⊢
    exact .scroll (arrow_plain (.inr (.inl down))) rfl rfl key
  simp only [if_neg down] at key ⊢
  by_cases left : input.key ∈ leftKeys
  · simp only [if_pos left] at key ⊢
    exact .move (arrow_plain (.inr (.inr (.inl left)))) rfl rfl key
  simp only [if_neg left] at key ⊢
  by_cases right : input.key ∈ rightKeys
  · simp only [if_pos right] at key ⊢
    exact .move (arrow_plain (.inr (.inr (.inr right)))) rfl rfl key
  simp only [if_neg right] at key ⊢
  by_cases typed : isxdigit input.key
  · -- a hex digit is none of the other keys
    have none : ∀ c ∈ [ctrl 'F', ctrl 'B', -1, 0x1b, ctrl 'L'], ¬ isxdigit c := by decide
    have other : ∀ c ∈ [ctrl 'F', ctrl 'B', -1, 0x1b, ctrl 'L'], input.key ≠ c :=
      fun c member same => none c member (same ▸ typed)
    simp only [List.forall_mem_cons] at other
    obtain ⟨pageDown, pageUp, timeout, escape, toggle, -⟩ := other
    simp only [if_neg pageDown, if_neg pageUp, if_neg timeout, if_neg escape, if_neg toggle,
      if_pos typed] at key ⊢
    exact .digit typed key
  by_cases pageDown : input.key = ctrl 'F'
  · simp only [if_pos pageDown] at key ⊢
    exact .redraw _ rfl typed key
  simp only [if_neg pageDown] at key ⊢
  by_cases pageUp : input.key = ctrl 'B'
  · simp only [if_pos pageUp] at key ⊢
    exact .redraw _ rfl typed key
  simp only [if_neg pageUp] at key ⊢
  by_cases timeout : input.key = -1
  · simp only [if_pos timeout] at key ⊢
    split
    · rename_i auto
      simp only [if_pos auto] at key
      exact .redraw s.editor rfl typed key
    · rename_i still
      simp only [if_neg still] at key
      exact .plain s.editor rfl typed key
  simp only [if_neg timeout] at key ⊢
  by_cases escape : input.key = 0x1b
  · simp only [if_pos escape] at key ⊢
    exact .redraw s.editor rfl typed key
  simp only [if_neg escape] at key ⊢
  by_cases toggle : input.key = ctrl 'L'
  · simp only [if_pos toggle] at key ⊢
    exact .redraw _ rfl typed key
  simp only [if_neg toggle, if_neg typed] at key ⊢
  exact .plain s.editor rfl typed key

theorem Session.digit_editor {c : Int} {s next : Session φ} (returns : s.digit file t c = .ok next) :
    next.editor = s.editor.digit t c := by
  rw [Session.digit] at returns
  rw [State.digit]
  dsimp only at returns ⊢
  split at returns
  · rename_i first
    cases returns
    rw [if_pos first]
  · rename_i second
    obtain ⟨f, written, returns⟩ := bind_ok.mp returns
    cases returns
    rw [if_neg second]
    rfl

/-- A key that returns leaves the variables as it does with some device. -/
theorem Session.key_editor {input : Input} {s next : Session φ} (returns : s.key file t input = .ok next) :
    ∃ view, next.editor = s.editor.key t { key := input.key, view } := by
  have effect := Session.key_effect file t input s
  rw [returns] at effect
  generalize result : Except.ok next = after at effect
  cases effect with
  | plain e _ _ key =>
    cases result
    exact ⟨{ device := fun _ => none, c := 0 }, (key _).symm⟩
  | redraw e _ _ key =>
    obtain ⟨view, drawn⟩ := Session.redraw_view result.symm
    exact ⟨view, by rw [drawn, key]⟩
  | digit _ key =>
    refine ⟨{ device := fun _ => none, c := 0 }, ?_⟩
    rw [key]
    exact Session.digit_editor result.symm

/-- A key that returns reads the file at most, or it is a second digit and writes. -/
inductive Session.Transfers (file : OpenFile φ Addr Byte ε) (t : Terminal) (input : Input)
    (s next : Session φ) : Prop where
  | still (first : ¬ (s.editor.n ≠ 0 ∧ isxdigit input.key))
      (requests : next.editor.requests = s.editor.requests) (file : next.file = s.file)
  | reads (first : ¬ (s.editor.n ≠ 0 ∧ isxdigit input.key))
      (requests : next.editor.requests = s.editor.requests) (addr : Addr)
      (draws : ∃ screen, displayFile file t input.c addr s.file = .ok (screen, next.file))
  | writes (second : s.editor.n ≠ 0) (typed : isxdigit input.key) (byte : Byte)
      (requests : next.editor.requests = s.editor.requests ++ [(s.editor.cursor, byte)])
      (writes : file.write (file.lseek s.file s.editor.cursor) byte = .ok next.file)

theorem Session.key_transfers {input : Input} {s next : Session φ}
    (returns : s.key file t input = .ok next) : s.Transfers file t input next := by
  have effect := Session.key_effect file t input s
  rw [returns] at effect
  generalize result : Except.ok next = after at effect
  cases effect with
  | plain e same still =>
    cases result
    exact .still (fun second => still second.2) same rfl
  | redraw e same still =>
    obtain ⟨⟨screen, f⟩, drawn, returns⟩ := bind_ok.mp result.symm
    cases returns
    exact .reads (fun second => still second.2) same _ ⟨screen, drawn⟩
  | digit typed =>
    rw [Session.digit] at result
    dsimp only at result
    split at result
    · rename_i first
      cases result
      exact .still (fun second => second.1 first) rfl rfl
    · rename_i second
      obtain ⟨f, written, returns⟩ := bind_ok.mp result.symm
      cases returns
      refine .writes second typed _ ?_ written
      rw [State.skipByte_requests]
      rfl

section

variable {γ : Type} {observed : φ → γ}
  (kept : ∀ f address byte g, file.read (file.lseek f address) = .ok (byte, g) → observed g = observed f)

include kept

theorem fetchCells_observed {addr : Addr} {count x : Nat} {c last : Byte} {f g : φ} {cells : List Byte}
    (returns : fetchCells file addr count x c f = .ok (cells, last, g)) : observed g = observed f := by
  induction count generalizing x c f cells with
  | zero =>
    cases returns
    rfl
  | succ count ih =>
    obtain ⟨⟨byte, f'⟩, read, returns⟩ := bind_ok.mp returns
    obtain ⟨⟨rest, last', g'⟩, fetched, returns⟩ := bind_ok.mp returns
    cases returns
    exact (ih fetched).trans (kept _ _ _ _ read)

theorem fetchRows_observed {addr : Addr} {count y : Nat} {c : Byte} {f g : φ} {rows : List Row}
    (returns : fetchRows file addr count y c f = .ok (rows, g)) : observed g = observed f := by
  induction count generalizing y c f rows with
  | zero =>
    cases returns
    rfl
  | succ count ih =>
    obtain ⟨⟨row, last, f'⟩, fetched, returns⟩ := bind_ok.mp returns
    obtain ⟨⟨rest, g'⟩, drawn, returns⟩ := bind_ok.mp returns
    cases returns
    exact (ih drawn).trans (fetchCells_observed kept fetched)

/-- What no seek and no read of the file changes, no redraw changes. -/
theorem displayFile_observed {c : Byte} {addr : Addr} {f g : φ} {screen : List Row}
    (returns : displayFile file t c addr f = .ok (screen, g)) : observed g = observed f :=
  fetchRows_observed kept returns

end

/-! ## Runs -/

theorem Session.turn_ok {input : Input} {s next : Session φ} (stays : input.key ≠ ctrl 'X')
    (returns : s.key file t input = .ok next) : s.turn file t input = .ok next := by
  rw [Session.turn, returns]
  exact if_pos stays

theorem Session.turn_inv {input : Input} {s next : Session φ} (steps : s.turn file t input = .ok next) :
    input.key ≠ ctrl 'X' ∧ s.key file t input = .ok next := by
  unfold Session.turn at steps
  split at steps
  · cases steps
  · rename_i after key
    split at steps
    · rename_i stays
      cases steps
      exact ⟨stays, key⟩
    · cases steps

/-- The variables go through a run of the loop with some device in each turn, and what holds of
    them along the one run holds along the other. -/
theorem Session.editor_of_run {s final : Session φ} {inputs : List Input}
    (returns : run (Session.turn file t) s inputs = .ok final) :
    ∃ presses : List Press, presses.map Press.key = inputs.map Input.key ∧
      run (Editor.turn t) s.editor presses = .ok final.editor ∧
      ∀ P : State → Int → Prop,
        Along (Session.turn file t) (fun s input => P s.editor input.key) s inputs ↔
          Along (Editor.turn t) (fun e press => P e press.key) s.editor presses := by
  induction inputs generalizing s with
  | nil =>
    cases returns
    exact ⟨[], rfl, rfl, fun _ => Iff.rfl⟩
  | cons input inputs ih =>
    obtain ⟨next, steps, returns⟩ := run_cons_inv returns
    obtain ⟨stays, key⟩ := Session.turn_inv steps
    obtain ⟨view, editor⟩ := Session.key_editor key
    obtain ⟨presses, keys, runs, along⟩ := ih returns
    have turned : Editor.turn t s.editor { key := input.key, view } = .ok next.editor := by
      rw [editor]
      exact if_pos stays
    refine ⟨{ key := input.key, view } :: presses, ?_, ?_, fun P => ?_⟩
    · rw [List.map_cons, List.map_cons, keys]
    · exact (run_cons_ok presses turned).trans runs
    · rw [Along.cons_ok steps, Along.cons_ok turned, along]

/-- What holds of all the addresses that a session asks to write at holds of the cursor whenever
    a key writes. -/
theorem Session.along_of_requests {s final : Session φ} {inputs : List Input}
    (returns : run (Session.turn file t) s inputs = .ok final) :
    ∃ written, final.editor.requests = s.editor.requests ++ written ∧
      ∀ P : Addr → Prop, (∀ write ∈ written, P write.1) →
        Along (Session.turn file t)
          (fun s input => s.editor.n ≠ 0 → isxdigit input.key → P s.editor.cursor) s inputs := by
  induction inputs generalizing s with
  | nil =>
    cases returns
    exact ⟨[], (List.append_nil _).symm, fun _ _ => trivial⟩
  | cons input inputs ih =>
    obtain ⟨next, steps, returns⟩ := run_cons_inv returns
    obtain ⟨rest, requests, along⟩ := ih returns
    have quiet (first : ¬ (s.editor.n ≠ 0 ∧ isxdigit input.key))
        (same : next.editor.requests = s.editor.requests) :
        ∃ written, final.editor.requests = s.editor.requests ++ written ∧
          ∀ P : Addr → Prop, (∀ write ∈ written, P write.1) →
            Along (Session.turn file t)
              (fun s input => s.editor.n ≠ 0 → isxdigit input.key → P s.editor.cursor) s
              (input :: inputs) := by
      refine ⟨rest, by rw [requests, same], fun P all => ?_⟩
      rw [Along.cons_ok steps]
      exact ⟨fun second typed => absurd ⟨second, typed⟩ first, along P all⟩
    cases Session.key_transfers (Session.turn_inv steps).2 with
    | still first same => exact quiet first same
    | reads first same => exact quiet first same
    | writes second typed byte asked =>
      refine ⟨(s.editor.cursor, byte) :: rest, by rw [requests, asked, List.append_assoc]; rfl,
        fun P all => ?_⟩
      rw [List.forall_mem_cons] at all
      rw [Along.cons_ok steps]
      exact ⟨fun _ _ => all.1, along P all.2⟩

end

def typedDigits (inputs : List Input) : List Int := (inputs.map Input.key).filter isxdigit

theorem xdigits_of_keys {presses : List Press} {inputs : List Input}
    (keys : presses.map Press.key = inputs.map Input.key) : xdigits presses = typedDigits inputs := by
  rw [xdigits, keys, typedDigits]

/-- At the head of the loop, on whatever file. -/
theorem Session.ready_of_run {φ ε : Type} {file : OpenFile φ Addr Byte ε} {t : Terminal} {c : Byte}
    {inputAddr : Addr} {opened : φ} {s e : Session φ} {inputs : List Input}
    (starts : Session.start file t c inputAddr opened = .ok s)
    (reaches : run (Session.turn file t) s inputs = .ok e) :
    ∃ presses, presses.map Press.key = inputs.map Input.key ∧ e.editor.Ready t presses := by
  obtain ⟨view, editor⟩ := Session.start_view starts
  obtain ⟨presses, keys, runs, -⟩ := Session.editor_of_run reaches
  rw [editor] at runs
  exact ⟨presses, keys, Editor.ready_of_run runs⟩

/-! ## Sessions that go on -/

section

variable {φ ε : Type} {file : OpenFile φ Addr Byte ε} (calls : file.Returns)

include calls

theorem fetchCells_returns (addr : Addr) (count x : Nat) (c : Byte) (f : φ) :
    ∃ result, fetchCells file addr count x c f = .ok result := by
  induction count generalizing x c f with
  | zero => exact ⟨_, rfl⟩
  | succ count ih =>
    obtain ⟨⟨byte, f'⟩, read⟩ := calls.read f (addr + BitVec.ofNat 64 x)
    obtain ⟨rest, fetched⟩ := ih (x + 1) (byte.getD c) f'
    exact ⟨_, bind_ok.mpr ⟨_, read, bind_ok.mpr ⟨_, fetched, rfl⟩⟩⟩

theorem fetchRows_returns (addr : Addr) (count y : Nat) (c : Byte) (f : φ) :
    ∃ result, fetchRows file addr count y c f = .ok result := by
  induction count generalizing y c f with
  | zero => exact ⟨_, rfl⟩
  | succ count ih =>
    obtain ⟨⟨cells, last, f'⟩, fetched⟩ :=
      fetchCells_returns calls (addr + BitVec.ofNat 64 (y <<< 4)) 16 0 c f
    obtain ⟨rest, drawn⟩ := ih (y + 1) last f'
    exact ⟨_, bind_ok.mpr ⟨_, fetched, bind_ok.mpr ⟨_, drawn, rfl⟩⟩⟩

theorem Session.redraw_returns (t : Terminal) (c : Byte) (s : Session φ) :
    ∃ next, s.redraw file t c = .ok next := by
  obtain ⟨result, drawn⟩ := fetchRows_returns calls
    (s.editor.topAddr &&& 0xfffffffffffffff0#64) (t.lines - 5).toNat 0 c s.file
  exact ⟨_, bind_ok.mpr ⟨_, drawn, rfl⟩⟩

theorem Session.start_returns (t : Terminal) (c : Byte) (inputAddr : Addr) (opened : φ) :
    ∃ s, Session.start file t c inputAddr opened = .ok s := by
  obtain ⟨result, drawn⟩ := fetchRows_returns calls
    (inputAddr &&& ~~~0xf#64 &&& 0xfffffffffffffff0#64) (t.lines - 5).toNat 0 c opened
  exact ⟨_, bind_ok.mpr ⟨_, drawn, rfl⟩⟩

theorem Session.digit_returns (t : Terminal) (c : Int) (s : Session φ) :
    ∃ next, s.digit file t c = .ok next := by
  by_cases first : s.editor.n = 0
  · simp only [Session.digit, first, if_true]
    exact ⟨_, rfl⟩
  · simp only [Session.digit, first, if_false]
    obtain ⟨f, written⟩ := calls.write s.file _ _
    exact ⟨_, bind_ok.mpr ⟨f, written, rfl⟩⟩

theorem Session.key_returns (t : Terminal) (input : Input) (s : Session φ) :
    ∃ next, s.key file t input = .ok next := by
  have effect := Session.key_effect file t input s
  generalize s.key file t input = after at effect ⊢
  cases effect with
  | plain => exact ⟨_, rfl⟩
  | redraw => exact Session.redraw_returns calls t input.c _
  | digit => exact Session.digit_returns calls t input.key s

/-- Only `Ctrl-X` ends the loop. -/
theorem Session.run_returns (t : Terminal) (s : Session φ) {inputs : List Input}
    (stays : ∀ input ∈ inputs, input.key ≠ ctrl 'X') :
    ∃ final, run (Session.turn file t) s inputs = .ok final := by
  induction inputs generalizing s with
  | nil => exact ⟨s, rfl⟩
  | cons input inputs ih =>
    obtain ⟨next, key⟩ := Session.key_returns calls t input s
    have steps := Session.turn_ok (stays input List.mem_cons_self) key
    rw [run_cons_ok inputs steps]
    exact ih next fun later member => stays later (List.mem_cons_of_mem _ member)

end

end TestPrograms.Editor
