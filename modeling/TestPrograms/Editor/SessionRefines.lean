import TestPrograms.Editor.AnyFile

/-! # The editor on what its file holds

The same program with a store in place of the file: a redraw shows what the store shows, and
the byte that a key has asked to write is stored.  Where a file refines a store, the editor on
the file does what the editor on the store does.
-/

namespace TestPrograms.Editor

open TestPrograms.Foundations

/-- The variables of the program and what the file holds. -/
structure Edited (μ : Type) where
  editor : State
  memory : μ

/-- A key asks for a write under the cursor, if it is the second digit of a byte, or for none. -/
theorem State.key_asks {t : Terminal} {e : State} (press : Press) (inside : e.InWindow t) :
    (¬ (e.n ≠ 0 ∧ isxdigit press.key) ∧ (e.key t press).requests = e.requests) ∨
      ∃ byte, (e.key t press).requests = e.requests ++ [(e.cursor, byte)] := by
  by_cases typed : isxdigit press.key
  · rw [State.key_digit inside typed]
    cases inside.half with
    | inl fresh =>
      rw [digit_first typed fresh]
      exact .inl ⟨fun second => second.1 fresh, rfl⟩
    | inr begun =>
      rw [digit_second typed begun, skipByte_requests]
      exact .inr ⟨_, rfl⟩
  · refine .inl ⟨fun second => typed second.2, ?_⟩
    have effect := e.key_effect press inside
    generalize e.key t press = next at effect ⊢
    cases effect with
    | move => rfl
    | keep => rfl
    | scroll => rfl
    | digit typed' => exact absurd typed' typed

theorem State.key_appends {t : Terminal} {e : State} (press : Press) (inside : e.InWindow t) :
    ∃ written, (e.key t press).requests = e.requests ++ written := by
  cases State.key_asks press inside with
  | inl quiet => exact ⟨[], quiet.2.trans (List.append_nil _).symm⟩
  | inr wrote => exact wrote.imp' (fun byte => [(e.cursor, byte)]) fun _ same => same

section

variable {φ ε μ : Type} (store : Store μ Addr Byte)

def Edited.view (c : Byte) (s : Edited μ) : View where
  device := store.shown s.memory
  c := c

/-- With the bytes stored that the program has asked for on its way to `next`. -/
def Edited.leave (next : State) (s : Edited μ) : Edited μ where
  editor := next
  memory := store.storeAll s.memory (next.requests.drop s.editor.requests.length)

def Edited.key (t : Terminal) (input : Input) (s : Edited μ) : Edited μ :=
  s.leave store (s.editor.key t { key := input.key, view := s.view store input.c })

def Edited.turn (t : Terminal) (s : Edited μ) (input : Input) : Except Exit (Edited μ) :=
  if input.key ≠ ctrl 'X' then .ok (s.key store t input) else .error .exited

def Edited.start (t : Terminal) (c : Byte) (inputAddr : Addr) (memory : μ) : Edited μ where
  editor := Editor.start t { device := store.shown memory, c } inputAddr
  memory := memory

def Session.abs (abs : φ → μ) (s : Session φ) : Edited μ where
  editor := s.editor
  memory := abs s.file

/-- If the key writes a byte, it may be written under the cursor. -/
def Session.Spares (abs : φ → μ) (Spares : μ → Addr → Prop) (s : Session φ) (input : Input) : Prop :=
  s.editor.n ≠ 0 → isxdigit input.key → Spares (abs s.file) s.editor.cursor

variable {store} {file : OpenFile φ Addr Byte ε} {abs : φ → μ} {Known : μ → Prop}
  {Spares : μ → Addr → Prop} (refines : file.Refines store abs Known Spares)

include refines

/-! ## `display_memory` -/

theorem fetchCells_ok {addr : Addr} {count x : Nat} {c last : Byte} {f g : φ} {cells : List Byte}
    (known : Known (abs f)) (returns : fetchCells file addr count x c f = .ok (cells, last, g)) :
    (cells, last) = readCells (store.shown (abs f)) addr count x c ∧ abs g = abs f := by
  induction count generalizing x c f cells with
  | zero =>
    cases returns
    exact ⟨rfl, rfl⟩
  | succ count ih =>
    obtain ⟨⟨byte, f'⟩, read, returns⟩ := bind_ok.mp returns
    obtain ⟨⟨rest, last', g'⟩, fetched, returns⟩ := bind_ok.mp returns
    cases returns
    obtain ⟨shown, kept⟩ := refines.read known read
    obtain ⟨cells, kept'⟩ := ih (kept ▸ known) fetched
    rw [kept, shown] at cells
    rw [readCells, ← cells, shown]
    exact ⟨rfl, kept'.trans kept⟩

theorem fetchRows_ok {addr : Addr} {count y : Nat} {c : Byte} {f g : φ} {rows : List Row}
    (known : Known (abs f)) (returns : fetchRows file addr count y c f = .ok (rows, g)) :
    rows = drawRows (store.shown (abs f)) addr count y c ∧ abs g = abs f := by
  induction count generalizing y c f rows with
  | zero =>
    cases returns
    exact ⟨rfl, rfl⟩
  | succ count ih =>
    obtain ⟨⟨cells, last, f'⟩, fetched, returns⟩ := bind_ok.mp returns
    obtain ⟨⟨rest, g'⟩, drawn, returns⟩ := bind_ok.mp returns
    cases returns
    obtain ⟨row, kept⟩ := fetchCells_ok refines known fetched
    obtain ⟨rest', kept'⟩ := ih (kept ▸ known) drawn
    rw [drawRows, ← row, rest', kept]
    exact ⟨rfl, kept'.trans kept⟩

theorem Session.redraw_ok {t : Terminal} {c : Byte} {s next : Session φ} (known : Known (abs s.file))
    (returns : s.redraw file t c = .ok next) :
    next.abs abs = { editor := s.editor.redraw t ((s.abs abs).view store c), memory := abs s.file } := by
  obtain ⟨⟨screen, f⟩, drawn, returns⟩ := bind_ok.mp returns
  cases returns
  obtain ⟨screen, kept⟩ := fetchRows_ok refines known drawn
  rw [Session.abs, kept, screen]
  rfl

/-! ## Keys -/

omit refines in
theorem Edited.leave_still {s : Edited μ} {e : State} (same : e.requests = s.editor.requests) :
    s.leave store e = { editor := e, memory := s.memory } := by
  rw [leave, same, List.drop_length, Store.storeAll_nil]

/-- The program has gone on to `e`, and stored what it has written if it was allowed to. -/
def Session.Leaves (store : Store μ Addr Byte) (abs : φ → μ) (allowed : Prop) (s next : Session φ)
    (e : State) : Prop :=
  next.editor = e ∧ (allowed → next.abs abs = (s.abs abs).leave store e)

omit refines in
theorem Session.Leaves.memory {allowed : Prop} {s next : Session φ} {e : State}
    (leaves : s.Leaves store abs allowed next e) (allows : allowed) :
    abs next.file =
      store.storeAll (abs s.file) (next.editor.requests.drop s.editor.requests.length) := by
  rw [leaves.1]
  exact congrArg Edited.memory (leaves.2 allows)

theorem Session.digit_ok {t : Terminal} {c : Int} {s next : Session φ} (known : Known (abs s.file))
    (returns : s.digit file t c = .ok next) :
    s.Leaves store abs (s.editor.n ≠ 0 → Spares (abs s.file) s.editor.cursor) next
      (s.editor.digit t c) := by
  by_cases first : s.editor.n = 0
  · simp only [Session.digit, first, if_true] at returns
    cases returns
    simp only [State.digit, first, if_true]
    refine ⟨rfl, fun _ => ?_⟩
    rw [Edited.leave_still]
    · rfl
    · rfl
  · simp only [Session.digit, first, if_false] at returns
    obtain ⟨f, written, returns⟩ := bind_ok.mp returns
    cases returns
    simp only [State.digit, first, if_false]
    refine ⟨rfl, fun spares => ?_⟩
    have stored := refines.write known (spares first) written
    simp only [Edited.leave, State.skipByte_requests, State.request,
      Session.abs, State.waddch, List.drop_left, Store.storeAll_singleton, stored]
    rfl

/-- What a key does to the session it does to the variables and to what the file holds. -/
theorem Session.key_ok {t : Terminal} {input : Input} {s next : Session φ} (known : Known (abs s.file))
    (returns : s.key file t input = .ok next) :
    s.Leaves store abs (s.Spares abs Spares input) next
      (s.editor.key t { key := input.key, view := (s.abs abs).view store input.c }) := by
  have effect := Session.key_effect file t input s
  rw [returns] at effect
  generalize result : Except.ok next = after at effect
  cases effect with
  | plain e same _ key =>
    cases result
    rw [key]
    exact ⟨rfl, fun _ => (Edited.leave_still (s := s.abs abs) same).symm⟩
  | redraw e same _ key =>
    rw [key]
    have shown := Session.redraw_ok refines (s := { s with editor := e }) known result.symm
    have still : (s.abs abs).leave store (e.redraw t ((s.abs abs).view store input.c)) = _ :=
      Edited.leave_still same
    exact ⟨congrArg Edited.editor shown, fun _ => shown.trans still.symm⟩
  | digit typed key =>
    rw [key]
    obtain ⟨after, stored⟩ := Session.digit_ok refines known result.symm
    exact ⟨after, fun spares => stored fun second => spares second typed⟩

theorem Session.start_ok {t : Terminal} {c : Byte} {inputAddr : Addr} {opened : φ} {s : Session φ}
    (known : Known (abs opened)) (returns : Session.start file t c inputAddr opened = .ok s) :
    s.abs abs = Edited.start store t c inputAddr (abs opened) := by
  obtain ⟨⟨screen, f⟩, drawn, returns⟩ := bind_ok.mp returns
  cases returns
  obtain ⟨screen, kept⟩ := fetchRows_ok refines known drawn
  rw [Session.abs, kept, screen]
  rfl

/-! ## Runs -/

/-- As long as the file holds what it is known to work with, a session on it runs as the program
    does on what it holds. -/
theorem Session.run_ok {t : Terminal} {s final : Session φ} {inputs : List Input}
    (known : Along (Session.turn file t) (fun s _ => Known (abs s.file)) s inputs)
    (spares : Along (Session.turn file t) (Session.Spares abs Spares) s inputs)
    (returns : run (Session.turn file t) s inputs = .ok final) :
    run (Edited.turn store t) (s.abs abs) inputs = .ok (final.abs abs) := by
  have simulates : ∀ (s : Session φ) (e : Edited μ) (input : Input) (next : Session φ),
      s.abs abs = e → Known (abs s.file) ∧ s.Spares abs Spares input → s.turn file t input = .ok next →
      ∃ next', e.turn store t input = .ok next' ∧ next.abs abs = next' := by
    rintro s _ input next rfl ⟨known, spares⟩ steps
    obtain ⟨stays, key⟩ := Session.turn_inv steps
    refine ⟨_, ?_, rfl⟩
    rw [Edited.turn, if_pos stays, (Session.key_ok refines known key).2 spares]
    rfl
  obtain ⟨_, runs, rfl⟩ := run_simulates simulates rfl (known.and spares) returns
  exact runs

end

/-! ## What the memory holds -/

section

variable {μ : Type} {store : Store μ Addr Byte} {t : Terminal}

theorem Edited.turn_inv {s next : Edited μ} {input : Input} (steps : s.turn store t input = .ok next) :
    input.key ≠ ctrl 'X' ∧ next = s.key store t input := by
  unfold Edited.turn at steps
  split at steps
  · rename_i stays
    cases steps
    exact ⟨stays, rfl⟩
  · cases steps

/-- The memory after a run is what the bytes written in it have left. -/
theorem Edited.memory_of_run {s final : Edited μ} {inputs : List Input} (inside : s.editor.InWindow t)
    (returns : run (Edited.turn store t) s inputs = .ok final) :
    ∃ written, final.editor.requests = s.editor.requests ++ written ∧
      final.memory = store.storeAll s.memory written := by
  induction inputs generalizing s with
  | nil =>
    cases returns
    exact ⟨[], (List.append_nil _).symm, rfl⟩
  | cons input inputs ih =>
    obtain ⟨next, steps, returns⟩ := run_cons_inv returns
    obtain ⟨-, rfl⟩ := Edited.turn_inv steps
    obtain ⟨first, appended⟩ := State.key_appends
      { key := input.key, view := s.view store input.c } inside
    obtain ⟨rest, writes, memory⟩ := ih ((s.editor.key_effect _ inside).inWindow inside) returns
    refine ⟨first ++ rest, ?_, ?_⟩
    · rw [writes, Edited.key, Edited.leave, appended, List.append_assoc]
    · rw [memory, Edited.key, Edited.leave, appended, List.drop_left, Store.storeAll_append]

end

end TestPrograms.Editor
