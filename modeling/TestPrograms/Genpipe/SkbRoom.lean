import TestPrograms.Genpipe.Accesses

/-! # Room in the skb

A frame is put into an skb allocated for its bytes, after a reserve of two that nobody asked the
allocator for, and the test for NULL comes after the reserve.
-/

namespace TestPrograms.Genpipe

open TestPrograms.Foundations
open TestPrograms.Foundations.Memory
open TestPrograms.Linux

/-- The allocator has an skb for the line's frame, with two bytes more than it is asked for. -/
def SkbFits (alloc : Nat → Option Nat) (line : List Byte) : Prop :=
  ∃ room ∈ alloc ((frameOf line).length + 14), (frameOf line).length + 14 + 2 ≤ room

instance (alloc : Nat → Option Nat) (line : List Byte) : Decidable (SkbFits alloc line) :=
  inferInstanceAs (Decidable (∃ _ ∈ _, _))

/-- One round a line. -/
def SkbsFit (alloc : Nat → Nat → Option Nat) : Nat → List (List Byte) → Prop
  | _, [] => True
  | round, line :: lines => SkbFits (alloc round) line ∧ SkbsFit alloc (round + 1) lines

/-- Neither an operation on NULL nor a put past the end. -/
def SkbSafe {α : Type} (result : Except Stuck α) : Prop :=
  result ≠ .error .nullSkb ∧ result ≠ .error .skbOverPanic

/-! ## One line -/

section

variable {s : Tx} {line more : List Byte}

theorem sendFrame_ok_iff (room : Option Nat) (tmpPkt : Memory) (frameLen : Nat) :
    (∃ packet, sendFrame room tmpPkt frameLen = .ok packet) ↔
      ∃ tail ∈ room, frameLen + 14 + 2 ≤ tail := by
  rcases sendFrame_cases room tmpPkt frameLen with ⟨stuck, fails, -, short⟩ | sends
  · refine ⟨fun ⟨packet, sends⟩ => ?_, fun fits => absurd fits short⟩
    rw [fails] at sends
    cases sends
  · refine ⟨fun _ => ?_, fun _ => ⟨_, sends⟩⟩
    cases room with
    | none => cases sends
    | some tail =>
      rw [sendFrame] at sends
      split at sends
      · exact ⟨tail, rfl, by omega⟩
      · cases sends

theorem writeLine_ok_iff (alloc : Nat → Option Nat) (s : Tx) (cr : Nat) :
    (∃ s', writeLine alloc s cr = .ok s') ↔
      SkbFits alloc (loadBytes s.memory s.txReadPtr (cr - s.txReadPtr)) := by
  have frameLen := decodeLoop_frameLen (cr - s.txReadPtr) s.txReadPtr s.memory s.tmpPkt
  rw [SkbFits, ← frameLen]
  unfold writeLine
  rw [← Decoder.fresh]
  generalize decodeLoop (cr - s.txReadPtr) s.txReadPtr s.memory (.fresh s.tmpPkt) = decoded at *
  obtain ⟨memory, d⟩ := decoded
  dsimp only
  rw [← sendFrame_ok_iff _ d.tmpPkt]
  cases sendFrame (alloc (d.frameLen + 14)) d.tmpPkt d.frameLen <;> simp

theorem findCr_line (ready : s.Ready) (shape : s.pending = line ++ newline :: more)
    (unbroken : newline ∉ line) :
    findCr s.memory s.txReadPtr (s.txWritePtr - s.txReadPtr) = s.txStartPtr + line.length ∧
      s.txStartPtr + line.length < s.txWritePtr ∧
      s.memory (s.txStartPtr + line.length) = newline ∧
      loadBytes s.memory s.txStartPtr line.length = line := by
  rcases ready.findCr_cases with ⟨-, unfinished⟩ | ⟨k, found, inside, none, ends⟩
  · rw [shape] at unfinished
    simp at unfinished
  · -- both readings end the first line at the first newline
    obtain ⟨rest, whole⟩ := Nat.exists_eq_add_of_lt inside
    have pending : s.pending = loadBytes s.memory s.txStartPtr (k + (1 + rest)) := by
      rw [Tx.pending, ready.readStart, show s.txWritePtr - s.txStartPtr = k + (1 + rest) by omega]
    rw [pending, loadBytes_add, loadBytes_add] at shape
    simp only [loadBytes, ends, List.cons_append, List.nil_append] at shape
    obtain ⟨front, -⟩ := Lines.front_unique none unbroken shape
    have length := congrArg List.length front
    rw [loadBytes_length] at length
    subst length
    exact ⟨found, inside, ends, front⟩

theorem findCr_none (ready : s.Ready) (unfinished : newline ∉ s.pending) :
    findCr s.memory s.txReadPtr (s.txWritePtr - s.txReadPtr) = s.txWritePtr := by
  rcases ready.findCr_cases with ⟨none, -⟩ | ⟨k, -, inside, -, ends⟩
  · exact none
  · refine absurd ?_ unfinished
    have readStart := ready.readStart
    rw [List.mem_iff_getElem]
    refine ⟨k, by rw [Tx.pending, loadBytes_length]; omega, ?_⟩
    simp only [Tx.pending]
    rw [loadBytes_getElem, readStart, ends]

/-- The line is taken if its skb fits; otherwise the call ends at the skb. -/
theorem writeLine_line (ready : s.Ready) (alloc : Nat → Option Nat)
    (shape : s.pending = line ++ newline :: more) (unbroken : newline ∉ line) :
    (SkbFits alloc line ∧ ∃ s', writeLine alloc s (s.txStartPtr + line.length) = .ok s' ∧
      Taken s [line] s' ∧ s'.pending = more) ∨
    (¬ SkbFits alloc line ∧ ∃ stuck, stuck ≠ .noFuel ∧
      writeLine alloc s (s.txStartPtr + line.length) = .error stuck) := by
  obtain ⟨-, inside, ends, front⟩ := findCr_line ready shape unbroken
  have fits := writeLine_ok_iff alloc s (s.txStartPtr + line.length)
  rw [ready.readStart, Nat.add_sub_cancel_left, front] at fits
  rcases writeLine_spec ready alloc inside ends with ⟨stuck, fails, fuel, -⟩ | ⟨s', takes, taken⟩
  · refine .inr ⟨fun fit => ?_, stuck, fuel, fails⟩
    obtain ⟨s', takes⟩ := fits.mpr fit
    rw [fails] at takes
    cases takes
  · rw [front] at taken
    refine .inl ⟨fits.mp ⟨s', takes⟩, s', takes, taken, ?_⟩
    have pending := taken.pending
    rw [shape] at pending
    simpa [unlines] using pending.symm

end

/-! ## All lines of a call -/

theorem writeLoop_ok_iff (alloc : Nat → Nat → Option Nat) (fuel round : Nat) {s : Tx}
    {lines : List (List Byte)} {rest : List Byte} (ready : s.Ready)
    (read : Lines newline s.pending lines rest) (enough : s.pending.length ≤ fuel) :
    (∃ s', writeLoop alloc fuel round s = .ok s') ↔ SkbsFit alloc round lines := by
  induction lines generalizing fuel round s with
  | nil =>
    have none := findCr_none ready (read.spells ▸ read.unfinished)
    unfold writeLoop
    simp only [none, if_true, SkbsFit, iff_true]
    exact ⟨s, rfl⟩
  | cons line lines ih =>
    obtain ⟨shape, unbroken, later⟩ := read.tail
    obtain ⟨found, inside, -⟩ := findCr_line ready shape unbroken
    cases fuel with
    | zero =>
      rw [shape] at enough
      simp at enough
    | succ fuel =>
      unfold writeLoop
      simp only [found, Nat.ne_of_lt inside, if_false, SkbsFit]
      rcases writeLine_line ready (alloc round) shape unbroken with
        ⟨fit, s', takes, taken, pending⟩ | ⟨unfit, stuck, -, fails⟩
      · have shorter := congrArg List.length shape
        simp only [List.length_append, List.length_cons] at shorter
        simp only [takes, fit, true_and]
        exact ih _ _ taken.ready (pending ▸ later) (by rw [pending, List.length_append]; omega)
      · simp only [fails, unfit, false_and, iff_false]
        rintro ⟨_, same⟩
        cases same

theorem skbSafe_iff {α : Type} {result : Except Stuck α} (fuel : result ≠ .error .noFuel) :
    SkbSafe result ↔ ∃ done, result = .ok done := by
  cases result with
  | ok done => simp [SkbSafe]
  | error stuck => cases stuck <;> simp_all [SkbSafe]

/-- A call uses its skbs within their room exactly if its user copy faults, or for every line it
    reads the allocator gives an skb, with two bytes more of tailroom than it is asked for. -/
theorem skb_room_iff (memory : Memory) (start : Nat) (low : start + packetBufMax ≤ 2 ^ 64)
    {earlier : List WriteCall} {s : Stream}
    (reached : run writeCall (Stream.init memory start) earlier = .ok s) (call : WriteCall) :
    ∃ lines rest, Lines newline (s.tx.kept call.buf.length ++ s.tx.accepted call.buf) lines rest ∧
      (SkbSafe (genpipeWrite call s.tx) ↔
        Faults call.fault (s.tx.accepted call.buf).length ∨ SkbsFit call.alloc 0 lines) := by
  have ready := (reached_ready low reached).1
  obtain ⟨ready', pending⟩ := ready.appended call.buf
  obtain ⟨lines, rest, read⟩ := Lines.exists_lines newline (s.tx.appended call.buf).pending
  refine ⟨lines, rest, pending ▸ read, ?_⟩
  have loops := writeLoop_ok_iff call.alloc _ 0 ready' read (Nat.le_refl _)
  rw [skbSafe_iff (genpipeWrite_ends ready call).1, genpipeWrite_eq ready, ← loops]
  split
  · rename_i faults
    simp [faults]
  · rename_i faultless
    simp only [faultless, false_or]
    cases writeLoop call.alloc (s.tx.appended call.buf).pending.length 0 (s.tx.appended call.buf) <;>
      simp [Except.map]

/-- An skb with just the room asked for, and no skb at all. -/
theorem skb_room_short :
    let write alloc := genpipeWrite { oneLine [] with alloc } (Tx.init (fun _ => 0) 0x10000)
    write (fun _ length => some length) = .error .skbOverPanic ∧
      write (fun _ _ => none) = .error .nullSkb ∧
      ¬ SkbSafe (write fun _ length => some length) ∧ ¬ SkbSafe (write fun _ _ => none) := by
  intro write
  have past : write (fun _ length => some length) = .error .skbOverPanic := by rfl
  have missing : write (fun _ _ => none) = .error .nullSkb := by rfl
  rw [past, missing]
  exact ⟨rfl, rfl, fun safe => safe.2 rfl, fun safe => safe.1 rfl⟩

theorem skb_room_sample :
    ∃ lines rest, Lines newline ((Tx.init (fun _ => 0) 0x10000).kept 3 ++
        (Tx.init (fun _ => 0) 0x10000).accepted [0x31#8, 0x32#8, 0x0a#8]) lines rest ∧
      (SkbSafe (genpipeWrite (oneLine [0x31#8, 0x32#8]) (Tx.init (fun _ => 0) 0x10000)) ↔
        Faults none ((Tx.init (fun _ => 0) 0x10000).accepted [0x31#8, 0x32#8, 0x0a#8]).length ∨
          SkbsFit (oneLine [0x31#8, 0x32#8]).alloc 0 lines) := by
  have fresh : run writeCall (Stream.init (fun _ => 0) 0x10000) [] =
      .ok (Stream.init (fun _ => 0) 0x10000) := rfl
  exact skb_room_iff (fun _ => 0) 0x10000 (by decide) fresh (oneLine [0x31#8, 0x32#8])

end TestPrograms.Genpipe
