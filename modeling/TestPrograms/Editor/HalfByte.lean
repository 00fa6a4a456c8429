import TestPrograms.Editor.Drive

/-! # The two digits of a byte

Moving the cursor drops a half-entered byte, scrolling the window under it does not: the
second digit then goes to another address than the first was typed at.  So it does where the
seek before the write fails.
-/

namespace TestPrograms.Editor

open TestPrograms.Foundations

/-- The keys that change `top_addr`: an arrow at the edge it points to, and the page keys. -/
def State.Scrolls (t : Terminal) (e : State) (c : Int) : Prop :=
  c ∈ upKeys ∧ e.y = 0 ∨ c ∈ downKeys ∧ e.y = t.lines - 6 ∨
    (c = ctrl 'F' ∨ c = ctrl 'B') ∧ t.lines ≠ 6

/-- A byte written in a session: the input that writes it, and the last digit before. -/
structure TypedByte (d : Drive) (t : Terminal) (s : Session Handle) (inputs : List Input) where
  before : List Input
  first : Input
  between : List Input
  second : Input
  after : List Input
  splits : inputs = before ++ first :: between ++ second :: after
  begun : Session Handle
  full : Session Handle
  next : Session Handle
  reaches : run (Session.turn d.file t) s before = .ok begun
  continues : run (Session.turn d.file t) begun (first :: between) = .ok full
  steps : full.turn d.file t second = .ok next
  typed : isxdigit first.key
  plain : ∀ input ∈ between, ¬ isxdigit input.key
  address : Addr
  byte : Byte
  writes : next.file.written = full.file.written ++ [(address, byte)]

section

variable {t : Terminal} {e : State}

theorem State.scrolled_eq_zero_iff (inside : e.InWindow t) (c : Int) :
    e.scrolled t c = 0 ↔ ¬ e.Scrolls t c := by
  have rows := inside.row
  have apart : ∀ c ∈ upKeys, c ∉ downKeys ∧ c ≠ ctrl 'F' ∧ c ≠ ctrl 'B' := by decide
  have apart' : ∀ c ∈ downKeys, c ≠ ctrl 'F' ∧ c ≠ ctrl 'B' := by decide
  have pages : ctrl 'F' ≠ ctrl 'B' := by decide
  unfold scrolled Scrolls
  grind

theorem State.scrolled_lt (t : Terminal) (e : State) (c : Int) :
    -2 ^ 31 ≤ e.scrolled t c ∧ e.scrolled t c < 2 ^ 31 := by
  have tall := t.tall
  have int := t.int
  unfold scrolled
  grind

theorem scroll_zero_iff {rows : Int} (low : -2 ^ 31 ≤ rows) (high : rows < 2 ^ 31) :
    BitVec.ofInt 64 (rows * 16) = 0#64 ↔ rows = 0 := by
  constructor
  · intro zero
    have value := congrArg BitVec.toInt zero
    rw [BitVec.toInt_ofInt, Int.bmod_eq_of_le (by omega) (by omega), BitVec.toInt_zero] at value
    omega
  · rintro rfl
    rfl

/-- With a byte half entered and no digit pressed, the byte is dropped or the cursor's place in
    the window stays; its address then changes exactly if the key scrolls. -/
theorem State.key_plain {press : Press} (inside : e.InWindow t) (plain : ¬ isxdigit press.key) :
    (e.key t press).n = 0 ∨
      (e.key t press).n = e.n ∧ ((e.key t press).cursor = e.cursor ↔ ¬ e.Scrolls t press.key) := by
  have effect := e.key_effect press inside
  generalize e.key t press = next at effect ⊢
  have still := scrolled_eq_zero_iff inside press.key
  cases effect with
  | move => exact .inl rfl
  | keep _ stays => exact .inr ⟨rfl, by simp [still.mp stays]⟩
  | scroll autoredraw =>
    obtain ⟨low, high⟩ := scrolled_lt t e press.key
    refine .inr ⟨rfl, ?_⟩
    rw [← still, ← scroll_zero_iff low high]
    simp only [cursor, redraw, BitVec.add_left_inj, BitVec.add_right_eq_self]
  | digit typed => exact absurd typed plain

/-- Once dropped, a byte stays dropped until a digit is pressed. -/
theorem dropped_of_run {full : State} {between : List Press} (inside : e.InWindow t) (fresh : e.n = 0)
    (plain : ∀ press ∈ between, ¬ isxdigit press.key) (runs : run (turn t) e between = .ok full) :
    full.n = 0 := by
  induction between generalizing e with
  | nil =>
    cases runs
    exact fresh
  | cons press between ih =>
    obtain ⟨next, steps, runs⟩ := run_cons_inv runs
    cases turn_inv steps
    have dropped : (e.key t press).n = 0 := by
      cases State.key_plain inside (plain press List.mem_cons_self) with
      | inl dropped => exact dropped
      | inr kept => exact kept.1.trans fresh
    exact ih ((e.key_effect press inside).inWindow inside) dropped
      (fun later member => plain later (List.mem_cons_of_mem _ member)) runs

theorem not_scrolls_of_digit {c : Int} (typed : isxdigit c) : ¬ e.Scrolls t c := by
  rintro (⟨up, -⟩ | ⟨down, -⟩ | ⟨page, -⟩)
  · exact arrow_plain (.inl up) typed
  · exact arrow_plain (.inr (.inl down)) typed
  · rcases page with page | page <;> exact absurd (page ▸ typed) (by decide)

/-- While no digit is pressed, the cursor keeps the address it has in the end exactly if no key
    scrolls. -/
theorem same_address_iff {full : State} {between : List Press} (inside : e.InWindow t)
    (plain : ∀ press ∈ between, ¬ isxdigit press.key) (runs : run (turn t) e between = .ok full)
    (begun : full.n = 1) :
    Along (turn t) (fun s _ => s.cursor = full.cursor) e between ↔
      Along (turn t) (fun s press => ¬ s.Scrolls t press.key) e between := by
  induction between generalizing e with
  | nil => exact Iff.rfl
  | cons press between ih =>
    obtain ⟨next, steps, runs⟩ := run_cons_inv runs
    cases turn_inv steps
    have inside' := (e.key_effect press inside).inWindow inside
    have plain' : ∀ later ∈ between, ¬ isxdigit later.key :=
      fun later member => plain later (List.mem_cons_of_mem _ member)
    have rest := ih inside' plain' runs
    rw [Along.cons_ok steps, Along.cons_ok steps, rest]
    cases State.key_plain inside (plain press List.mem_cons_self) with
    | inl dropped =>
      -- the byte would not be half entered at its second digit
      have fresh := dropped_of_run inside' dropped plain' runs
      omega
    | inr kept =>
      refine and_congr_left fun calm => ?_
      have onward : (e.key t press).cursor = full.cursor := by
        cases between with
        | nil =>
          cases runs
          rfl
        | cons later between => exact (rest.mpr calm).1
      rw [← kept.2, onward, eq_comm]

/-- From the first digit on, which moves neither the cursor nor the window. -/
theorem typed_address_iff {full : State} {first : Press} {between : List Press} (inside : e.InWindow t)
    (typed : isxdigit first.key) (plain : ∀ press ∈ between, ¬ isxdigit press.key)
    (runs : run (turn t) e (first :: between) = .ok full) (begun : full.n = 1) :
    Along (turn t) (fun s _ => s.cursor = full.cursor) e (first :: between) ↔
      Along (turn t) (fun s press => ¬ s.Scrolls t press.key) e (first :: between) := by
  obtain ⟨next, steps, runs⟩ := run_cons_inv runs
  cases turn_inv steps
  have inside' := (e.key_effect first inside).inWindow inside
  have fresh : e.n = 0 := by
    refine inside.half.resolve_right fun second => ?_
    -- it would be the second digit of a byte, and the one after it a first one
    have dropped : (e.key t first).n = 0 := by
      obtain ⟨x, y, skips, -⟩ := State.skipByte_eq t (e.filled first.key)
      rw [State.key_digit inside typed, State.digit_second typed second, skips]
    have still := dropped_of_run inside' dropped plain runs
    omega
  have kept : (e.key t first).cursor = e.cursor := by
    rw [State.key_digit inside typed, State.digit_first typed fresh]
    rfl
  have rest := same_address_iff inside' plain runs begun
  rw [Along.cons_ok steps, Along.cons_ok steps, rest]
  refine and_congr_left fun calm => iff_of_true ?_ (not_scrolls_of_digit typed)
  rw [← kept]
  cases between with
  | nil =>
    cases runs
    rfl
  | cons press between => exact (rest.mpr calm).1

end

section

variable {d : Drive} {t : Terminal} {c : Byte} {inputAddr : Addr} {opened : Handle} {s : Session Handle}
  {inputs : List Input}

theorem TypedByte.full_writes (b : TypedByte d t s inputs) :
    b.full.editor.n ≠ 0 ∧ isxdigit b.second.key ∧
      b.address = d.target b.full.file b.full.editor.cursor := by
  obtain ⟨-, -, nothing⟩ | ⟨second, typed, byte, -, written⟩ :=
    Drive.key_written (Session.turn_inv b.steps).2
  · simp [b.writes] at nothing
  · have same := b.writes.symm.trans written
    simp only [List.append_cancel_left_eq, List.cons.injEq, Prod.mk.injEq, and_true] at same
    exact ⟨second, typed, same.1⟩

theorem TypedByte.alone_iff (b : TypedByte d t s inputs)
    (starts : Session.start d.file t c inputAddr opened = .ok s) :
    Along (Session.turn d.file t) (fun s _ => s.editor.cursor = b.address) b.begun
        (b.first :: b.between ++ [b.second]) ↔
      Along (Session.turn d.file t) (fun s input => ¬ s.editor.Scrolls t input.key) b.begun
        (b.first :: b.between) ∧ d.Reaches b.full b.second := by
  obtain ⟨second, digit, address⟩ := b.full_writes
  have reaches : d.Reaches b.full b.second ↔ b.full.editor.cursor = b.address := by
    rw [address, eq_comm, Drive.target_eq_iff]
    exact (forall_prop_of_true second).trans (forall_prop_of_true digit)
  have last : Along (Session.turn d.file t) (fun s _ => s.editor.cursor = b.address) b.full [b.second] ↔
      b.full.editor.cursor = b.address := and_iff_left fun _ _ => trivial
  rw [Along.append_ok b.continues, last, reaches]
  refine and_congr_left fun here => ?_
  -- the variables go through the same keys
  obtain ⟨_, -, ready⟩ := Session.ready_of_run starts b.reaches
  have reached : run (Session.turn d.file t) s (b.before ++ b.first :: b.between) = .ok b.full := by
    rw [run_append, b.reaches]
    exact b.continues
  obtain ⟨_, -, ready'⟩ := Session.ready_of_run starts reached
  obtain ⟨presses, keys, runs, along⟩ := Session.editor_of_run b.continues
  obtain ⟨first, between, rfl, key, keys⟩ := List.map_eq_cons_iff.mp keys
  rw [along fun e _ => e.cursor = b.address, along fun e c => ¬ e.Scrolls t c, ← here]
  refine typed_address_iff ready.inside (by rw [key]; exact b.typed) (fun press member => ?_) runs
    (ready'.inside.half.resolve_left second)
  have same : press.key ∈ b.between.map Input.key := keys ▸ List.mem_map_of_mem member
  obtain ⟨input, there, same⟩ := List.mem_map.mp same
  exact same ▸ b.plain input there

end

/-- In a session all the bytes are written to the address that the cursor had from their first digit
    to their second if and only if between the digits of a byte no key scrolls, and at the second
    the seek to the cursor succeeds or the file stands there. -/
theorem one_address_iff (d : Drive) (t : Terminal) (c : Byte) (inputAddr : Addr) (opened : Handle)
    (inputs : List Input) :
    ∃ s, Session.start d.file t c inputAddr opened = .ok s ∧
      ((∀ b : TypedByte d t s inputs,
        Along (Session.turn d.file t) (fun s _ => s.editor.cursor = b.address) b.begun
          (b.first :: b.between ++ [b.second])) ↔
      ∀ b : TypedByte d t s inputs,
        Along (Session.turn d.file t) (fun s input => ¬ s.editor.Scrolls t input.key) b.begun
          (b.first :: b.between) ∧ d.Reaches b.full b.second) := by
  obtain ⟨s, starts⟩ := Session.start_returns d.returns t c inputAddr opened
  exact ⟨s, starts, forall_congr' fun b => b.alone_iff starts⟩

/-- `4` typed at `0x1000` on the top row, then the arrow up: the `2` writes `0x42` to `0xff0`. -/
theorem digits_at_two_addresses :
    ∃ s, Session.start sampleDrive.file sampleTerminal 0 0x1000#64 sampleHandle = .ok s ∧
      ¬ ∀ b : TypedByte sampleDrive sampleTerminal s ([ord '4', 0o403, ord '2'].map sampleInput),
        Along (Session.turn sampleDrive.file sampleTerminal) (fun s _ => s.editor.cursor = b.address)
          b.begun (b.first :: b.between ++ [b.second]) := by
  refine ⟨_, rfl, fun all => ?_⟩
  have kept := all
    { before := [], first := sampleInput (ord '4'), between := [sampleInput 0o403]
      second := sampleInput (ord '2'), after := [], splits := rfl, begun := _, full := _, next := _
      reaches := rfl, continues := rfl, steps := rfl, typed := by decide, plain := by decide
      address := 0xff0, byte := 0x42, writes := rfl }
  exact absurd kept.1 (by decide)

end TestPrograms.Editor
