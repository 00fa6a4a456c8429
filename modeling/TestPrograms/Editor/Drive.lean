import TestPrograms.Editor.AnyFile
import TestPrograms.Editor.Redraw

/-! # Where the bytes go

The editor on a file any of whose calls may fail.  It looks at no result: where the seek to the
cursor fails, the byte is written wherever the file stands.
-/

namespace TestPrograms.Editor

open TestPrograms.Foundations

/-- What a file answers, by the number of the transfer: a write goes through or it fails.  A transfer
    that goes through moves the position by `step`. -/
structure Drive extends Device where
  write : Nat → Addr → Bool
  step : Addr

/-- An open file: its position, the number of transfers so far, and of every write made the position
    it was made at and its byte. -/
structure Handle where
  pos : Addr
  transfers : Nat
  written : List (Addr × Byte)
  deriving DecidableEq, Repr

def Drive.file (d : Drive) : OpenFile Handle Addr Byte Empty where
  lseek f address := if d.seek f.transfers address then { f with pos := address } else f
  read f :=
    match d.read f.transfers f.pos with
    | some byte => .ok (some byte, { f with pos := f.pos + d.step, transfers := f.transfers + 1 })
    | none => .ok (none, { f with transfers := f.transfers + 1 })
  write f byte :=
    .ok {
      pos := if d.write f.transfers f.pos then f.pos + d.step else f.pos
      transfers := f.transfers + 1
      written := f.written ++ [(f.pos, byte)] }

/-- Where a transfer is made behind the seek to `address`. -/
def Drive.target (d : Drive) (f : Handle) (address : Addr) : Addr :=
  if d.seek f.transfers address then address else f.pos

/-- If the key writes, the seek to the cursor succeeds or the file stands there already. -/
def Drive.Reaches (d : Drive) (s : Session Handle) (input : Input) : Prop :=
  s.editor.n ≠ 0 → isxdigit input.key →
    d.seek s.file.transfers s.editor.cursor ∨ s.file.pos = s.editor.cursor

instance (d : Drive) (s : Session Handle) (input : Input) : Decidable (d.Reaches s input) :=
  inferInstanceAs (Decidable (_ → _ → _))

/-- The key writes nothing, or one byte: the byte of the last two digits, to the address drawn at
    the left of the cursor's row plus the cursor's column. -/
def Session.UnderCursor (past : List Input) (s next : Session Handle) : Prop :=
  next.file.written = s.file.written ∨
    ∃ front high low, typedDigits past = front ++ [high, low] ∧
      next.file.written = s.file.written ++
        [(s.editor.topAddr + BitVec.ofInt 64 (16 * s.editor.y + s.editor.x),
          BitVec.ofInt 8 (16 * hexValue high + hexValue low))] ∧
      ∃ row, s.editor.screen[s.editor.y.toNat]? = some row ∧ ∀ shown : Addr,
        row.label = hexText 16 shown.toNat ↔
          s.editor.topAddr + BitVec.ofInt 64 (16 * s.editor.y + s.editor.x) =
            shown + BitVec.ofInt 64 s.editor.x

section

variable {d : Drive} {t : Terminal}

/-! ## The calls -/

theorem Drive.returns (d : Drive) : d.file.Returns where
  read f address := by
    simp only [Drive.file]
    split <;> exact ⟨_, rfl⟩
  write _ _ _ := ⟨_, rfl⟩

theorem Drive.lseek_pos (d : Drive) (f : Handle) (address : Addr) :
    d.file.lseek f address = { f with pos := d.target f address } := by
  simp only [Drive.file, Drive.target]
  split <;> rfl

theorem Drive.target_eq_iff {f : Handle} {address : Addr} :
    d.target f address = address ↔ d.seek f.transfers address ∨ f.pos = address := by
  unfold Drive.target
  split
  · rename_i sought
    exact iff_of_true rfl (.inl sought)
  · rename_i failed
    simp [failed]

theorem Drive.display_written {c : Byte} {addr : Addr} {f g : Handle} {screen : List Row}
    (returns : displayFile d.file t c addr f = .ok (screen, g)) : g.written = f.written := by
  refine displayFile_observed (fun f address byte g read => ?_) returns
  rw [d.lseek_pos] at read
  simp only [Drive.file] at read
  split at read
  · cases read
    rfl
  · cases read
    rfl

/-- What a key writes, if it writes, it asks for at the cursor. -/
theorem Drive.key_written {input : Input} {s next : Session Handle}
    (returns : s.key d.file t input = .ok next) :
    (¬ (s.editor.n ≠ 0 ∧ isxdigit input.key) ∧ next.editor.requests = s.editor.requests ∧
        next.file.written = s.file.written) ∨
      s.editor.n ≠ 0 ∧ isxdigit input.key ∧ ∃ byte,
        next.editor.requests = s.editor.requests ++ [(s.editor.cursor, byte)] ∧
          next.file.written = s.file.written ++ [(d.target s.file s.editor.cursor, byte)] := by
  cases Session.key_transfers returns with
  | still first same file => exact .inl ⟨first, same, by rw [file]⟩
  | reads first same _ draws =>
    obtain ⟨screen, drawn⟩ := draws
    exact .inl ⟨first, same, Drive.display_written drawn⟩
  | writes second typed byte asked written =>
    rw [d.lseek_pos] at written
    refine .inr ⟨second, typed, byte, asked, ?_⟩
    rw [← Except.ok.inj written]

/-! ## The redraws of the editor -/

/-- The answers to a redraw that begins at the `n`th transfer. -/
def Device.after (device : Device) (n : Nat) : Device where
  seek i := device.seek (n + i)
  read i := device.read (n + i)

/-- The file stands where the sweep does, `n` transfers having been made before. -/
def Sweep.On (n : Nat) (f : Handle) (s : Sweep) : Prop :=
  f.pos = s.pos ∧ f.transfers = n + s.drawn

theorem Drive.readByte_on {n : Nat} {f : Handle} {s : Sweep} (step : d.step = 1#64) (on : s.On n f)
    (address : Addr) :
    ∃ byte g, d.file.read (d.file.lseek f address) = .ok (byte, g) ∧
      byte.getD s.c = (s.readByte (d.toDevice.after n) address).c ∧
      (s.readByte (d.toDevice.after n) address).On n g := by
  obtain ⟨pos, transfers⟩ := on
  rw [d.lseek_pos, Drive.target, pos, transfers]
  dsimp only [Drive.file, Sweep.readByte, Device.after, Sweep.On]
  generalize (if d.seek (n + s.drawn) address then address else s.pos) = place
  cases d.read (n + s.drawn) place with
  | some byte => exact ⟨_, _, rfl, rfl, by rw [step], Nat.add_assoc _ _ _⟩
  | none => exact ⟨_, _, rfl, rfl, rfl, Nat.add_assoc _ _ _⟩

theorem Drive.fetchCells_on {n : Nat} {f : Handle} {s : Sweep} (step : d.step = 1#64) (on : s.On n f)
    (addr : Addr) (count x : Nat) :
    ∃ g, fetchCells d.file addr count x s.c f =
        .ok ((sweepCells (d.toDevice.after n) addr count x s).1.map Cell.c,
          (sweepCells (d.toDevice.after n) addr count x s).2.c, g) ∧
      (sweepCells (d.toDevice.after n) addr count x s).2.On n g := by
  induction count generalizing x f s with
  | zero => exact ⟨f, rfl, on⟩
  | succ count ih =>
    obtain ⟨byte, f', read, same, on'⟩ := Drive.readByte_on step on (addr + BitVec.ofNat 64 x)
    obtain ⟨g, rest, ends⟩ := ih on' (x + 1)
    refine ⟨g, bind_ok.mpr ⟨_, read, ?_⟩, ends⟩
    simp only [same, rest]
    rfl

theorem Drive.fetchRows_on {n : Nat} {f : Handle} {s : Sweep} (step : d.step = 1#64) (on : s.On n f)
    (addr : Addr) (count y : Nat) :
    ∃ g, fetchRows d.file addr count y s.c f =
      .ok ((sweepRows (d.toDevice.after n) addr count y s).map SourcedRow.row, g) := by
  induction count generalizing y f s with
  | zero => exact ⟨f, rfl⟩
  | succ count ih =>
    obtain ⟨f', cells, on'⟩ := Drive.fetchCells_on step on (addr + BitVec.ofNat 64 (y <<< 4)) 16 0
    obtain ⟨g, rest⟩ := ih on' (y + 1)
    refine ⟨g, bind_ok.mpr ⟨_, cells, ?_⟩⟩
    simp only [rest, sweepRows, List.map_cons, SourcedRow.row]
    rfl

/-- What a redraw of the editor draws is what `sweepMemory` follows cell by cell. -/
theorem displayFile_sweep (step : d.step = 1#64) (c : Byte) (addr : Addr) (f : Handle)
    {lines : BitVec 32} (same : lines.toInt = t.lines) :
    ∃ g, displayFile d.file t c addr f =
      .ok ((sweepMemory lines (d.toDevice.after f.transfers) f.pos c addr).map SourcedRow.row, g) := by
  rw [sweepMemory, same]
  exact Drive.fetchRows_on (s := { pos := f.pos, c, source := none, drawn := 0 }) step ⟨rfl, rfl⟩ _ _ _

/-! ## Under the cursor -/

theorem typedDigits_append {past : List Input} {presses : List Press} {input : Input} {view : View}
    (keys : presses.map Press.key = past.map Input.key) :
    xdigits (presses ++ [{ key := input.key, view }]) = typedDigits (past ++ [input]) := by
  refine xdigits_of_keys ?_
  rw [List.map_append, List.map_append, keys]
  rfl

theorem Session.underCursor_iff {past : List Input} {presses : List Press} {input : Input}
    {s next : Session Handle} (keys : presses.map Press.key = past.map Input.key)
    (ready : s.editor.Ready t presses) (returns : s.key d.file t input = .ok next) :
    s.UnderCursor (past ++ [input]) next ↔ d.Reaches s input := by
  obtain ⟨first, -, nothing⟩ | ⟨second, typed, byte, asked, written⟩ := Drive.key_written returns
  · exact iff_of_true (.inl nothing) fun second typed => absurd ⟨second, typed⟩ first
  obtain ⟨view, editor⟩ := Session.key_editor returns
  have requests := ready.key_requests { key := input.key, view }
  rw [← editor, asked, typedDigits_append keys, State.cursor_eq] at requests
  have reaches : d.Reaches s input ↔ d.target s.file s.editor.cursor = s.editor.cursor :=
    (forall_prop_of_true second).trans ((forall_prop_of_true typed).trans Drive.target_eq_iff.symm)
  rw [reaches, UnderCursor, written, ← s.editor.cursor_eq]
  obtain nothing | ⟨-, front, high, low, digits, same⟩ := requests
  · simp at nothing
  obtain rfl : byte = BitVec.ofInt 8 (16 * hexValue high + hexValue low) := by simpa using same
  constructor
  · rintro (nothing | ⟨_, _, _, -, there, -⟩)
    · simp at nothing
    · simpa using congrArg (List.map Prod.fst) there
  · intro here
    rw [here]
    exact .inr ⟨front, high, low, digits, rfl, ready.drawn.label_iff ready.inside⟩

end

/-- Whatever the keys, and whatever the calls on the file answer, at the head of the loop the cursor
    is in the window and `top_addr` on a row boundary.  Every byte of a session goes under the
    cursor if and only if at every write the seek to the cursor succeeds or the file stands there. -/
theorem writes_under_cursor_iff (d : Drive) (t : Terminal) (c : Byte) (inputAddr : Addr)
    (opened : Handle) (inputs : List Input) :
    ∃ s, Session.start d.file t c inputAddr opened = .ok s ∧
      (∀ past rest e, inputs = past ++ rest → run (Session.turn d.file t) s past = .ok e →
        (0 ≤ e.editor.x ∧ e.editor.x ≤ 15) ∧ (0 ≤ e.editor.y ∧ e.editor.y ≤ t.lines - 6) ∧
          (e.editor.n = 0 ∨ e.editor.n = 1) ∧ e.editor.topAddr.toNat % 16 = 0) ∧
      ((∀ past input rest e next, inputs = past ++ input :: rest →
          run (Session.turn d.file t) s past = .ok e → e.key d.file t input = .ok next →
          e.UnderCursor (past ++ [input]) next) ↔
        Along (Session.turn d.file t) d.Reaches s inputs) := by
  obtain ⟨s, starts⟩ := Session.start_returns d.returns t c inputAddr opened
  refine ⟨s, starts, fun past rest e _ reaches => ?_, ?_⟩
  · obtain ⟨presses, -, ready⟩ := Session.ready_of_run starts reaches
    exact ⟨ready.inside.column, ready.inside.row, ready.inside.half, ready.drawn.aligned⟩
  · rw [along_iff_splits]
    refine forall₄_congr fun past input rest e => ?_
    obtain ⟨next, returns⟩ := Session.key_returns d.returns t input e
    constructor
    · intro all splits reaches
      obtain ⟨presses, keys, ready⟩ := Session.ready_of_run starts reaches
      exact (Session.underCursor_iff keys ready returns).mp (all next splits reaches returns)
    · intro reached next splits reaches returns
      obtain ⟨presses, keys, ready⟩ := Session.ready_of_run starts reaches
      exact (Session.underCursor_iff keys ready returns).mpr (reached splits reaches)

def sampleInput (c : Int) : Input := { key := c, c := 0 }

/-- `/dev/mem`, where no seek goes to the last 4095 addresses. -/
def sampleDrive : Drive where
  seek _ address := address < 0xfffffffffffff001#64
  read _ _ := some 0
  write _ _ := true
  step := 1

def sampleHandle : Handle := { pos := 0, transfers := 0, written := [] }

/-- From 0 the arrow up goes to `0xfffffffffffffff0`.  The row is drawn from `0x20` on, where the file
    stands, the row below from its own addresses, and the `42` typed goes to `0x10`. -/
theorem written_elsewhere :
    ∃ s, Session.start sampleDrive.file sampleTerminal 0 0#64 sampleHandle = .ok s ∧
      ¬ ∀ past input rest e next,
        [0o403, ord '4', ord '2'].map sampleInput = past ++ input :: rest →
          run (Session.turn sampleDrive.file sampleTerminal) s past = .ok e →
          e.key sampleDrive.file sampleTerminal input = .ok next →
          e.UnderCursor (past ++ [input]) next := by
  refine ⟨_, rfl, fun all => ?_⟩
  have under := all ([0o403, ord '4'].map sampleInput) (sampleInput (ord '2')) [] _ _ rfl rfl rfl
  obtain nothing | ⟨_, _, _, -, there, -⟩ := under
  · exact absurd nothing (by decide)
  · have address : [0x10#64] = [0xfffffffffffffff0#64] := congrArg (List.map Prod.fst) there
    exact absurd address (by decide)

end TestPrograms.Editor
