import TestPrograms.Genpipe.SkbRoom

/-! # Overlapping copies

`memcpy` is called to move what follows a sent line to the start of the buffer, over the length of
that line, and to move the whole buffer onto itself.
-/

namespace TestPrograms.Genpipe

open TestPrograms.Foundations
open TestPrograms.Foundations.Memory
open TestPrograms.Linux

def Access.Apart : Access → Prop
  | .memcpy dst src count => count = 0 ∨ dst + count ≤ src ∨ src + count ≤ dst
  | _ => True

def MemcpysApart (trace : List Access) : Prop := ∀ access ∈ trace, access.Apart

/-- What follows a line that is sent is no longer than the line with its newline. -/
def ShiftsApart (alloc : Nat → Nat → Option Nat) : Nat → List (List Byte) → List Byte → Prop
  | _, [], _ => True
  | round, line :: lines, rest =>
    SkbFits (alloc round) line →
      (unlines newline lines ++ rest).length ≤ line.length + 1 ∧
        ShiftsApart alloc (round + 1) lines rest

/-! ## The copies of a round -/

section

variable {s : Tx} {line more : List Byte} {first second : List Access}

@[simp] theorem memcpysApart_nil : MemcpysApart [] := List.forall_mem_nil _

@[simp] theorem memcpysApart_cons {access : Access} :
    MemcpysApart (access :: first) ↔ access.Apart ∧ MemcpysApart first :=
  List.forall_mem_cons

@[simp] theorem memcpysApart_append :
    MemcpysApart (first ++ second) ↔ MemcpysApart first ∧ MemcpysApart second :=
  List.forall_mem_append

@[simp] theorem findCrTrace_apart (memory : Memory) (ptr count : Nat) :
    MemcpysApart (findCrTrace memory ptr count) :=
  forall_findCrTrace memory fun _ _ _ => trivial

@[simp] theorem decodeTrace_apart (count ptr : Nat) (memory : Memory) (d : Decoder) :
    MemcpysApart (decodeTrace count ptr memory d) :=
  forall_decodeTrace memory d
    ⟨fun _ _ _ => trivial, fun _ _ _ => trivial, fun _ _ => trivial, fun _ _ => trivial⟩

/-- A shift moves `more` down by the line and its newline. -/
theorem writeLineTrace_apart_iff (ready : s.Ready) (alloc : Nat → Option Nat)
    (shape : s.pending = line ++ newline :: more) (unbroken : newline ∉ line) :
    MemcpysApart (writeLineTrace alloc s (s.txStartPtr + line.length)) ↔
      (SkbFits alloc line → more.length ≤ line.length + 1) := by
  obtain ⟨-, inside, -, front⟩ := findCr_line ready shape unbroken
  have length := congrArg List.length shape
  simp only [ready.length_pending, List.length_append, List.length_cons] at length
  have frameLen := decodeLoop_frameLen line.length s.txReadPtr s.memory s.tmpPkt
  unfold writeLineTrace
  rw [ready.readStart] at frameLen ⊢
  rw [front] at frameLen
  rw [Nat.add_sub_cancel_left, memcpysApart_append, SkbFits, ← frameLen]
  generalize (decodeLoop line.length s.txStartPtr s.memory (.fresh s.tmpPkt)).2 = d
  rw [← sendFrame_ok_iff _ d.tmpPkt]
  cases sendFrame (alloc (d.frameLen + 14)) d.tmpPkt d.frameLen with
  | error stuck => simp
  | ok packet =>
    have moves : s.txStartPtr + line.length + 1 - s.txStartPtr > 0 := by omega
    simp only [decodeTrace_apart, moves, if_true, memcpysApart_cons, memcpysApart_nil, Access.Apart,
      true_and, and_true, Except.ok.injEq, exists_eq', forall_const]
    omega

theorem writeLoopTrace_apart_iff (alloc : Nat → Nat → Option Nat) (fuel round : Nat)
    {lines : List (List Byte)} {rest : List Byte} (ready : s.Ready)
    (read : Lines newline s.pending lines rest) (enough : s.pending.length ≤ fuel) :
    MemcpysApart (writeLoopTrace alloc fuel round s) ↔ ShiftsApart alloc round lines rest := by
  induction lines generalizing fuel round s with
  | nil =>
    have none := findCr_none ready (read.spells ▸ read.unfinished)
    unfold writeLoopTrace
    simp [none, ShiftsApart]
  | cons line lines ih =>
    obtain ⟨shape, unbroken, later⟩ := read.tail
    obtain ⟨found, inside, -⟩ := findCr_line ready shape unbroken
    cases fuel with
    | zero =>
      rw [shape] at enough
      simp at enough
    | succ fuel =>
      unfold writeLoopTrace
      simp only [found, Nat.ne_of_lt inside, if_false, ShiftsApart, memcpysApart_append, findCrTrace_apart,
        true_and, writeLineTrace_apart_iff ready (alloc round) shape unbroken]
      rcases writeLine_line ready (alloc round) shape unbroken with
        ⟨fit, s', takes, taken, pending⟩ | ⟨unfit, stuck, -, fails⟩
      · have shorter := congrArg List.length shape
        simp only [List.length_append, List.length_cons] at shorter
        simp only [takes, fit, forall_const]
        rw [ih _ _ taken.ready (pending ▸ later) (by rw [pending, List.length_append]; omega)]
      · simp [fails, unfit]

theorem makeRoomTrace_apart_iff (ready : s.Ready) (count : Nat) :
    MemcpysApart (makeRoomTrace s count) ↔ s.pending = [] ∨ ¬ s.Overflows count := by
  have readStart := ready.readStart
  have startWrite := ready.startWrite
  have length := ready.length_pending
  unfold makeRoomTrace
  split
  · rename_i overflows
    simp only [memcpysApart_cons, Access.Apart, memcpysApart_nil, and_true, overflows, not_true_eq_false,
      or_false, ← List.length_eq_zero_iff]
    omega
  · rename_i fits
    simp [fits]

end

/-! ## Every call from every reached state -/

/-- No copy of a call overlaps exactly if the call does not make room with bytes pending and, its
    user copy not faulting, no line it sends has more behind it than itself. -/
theorem memcpy_apart_iff (memory : Memory) (start : Nat) (low : start + packetBufMax ≤ 2 ^ 64)
    {earlier : List WriteCall} {s : Stream}
    (reached : run writeCall (Stream.init memory start) earlier = .ok s) (call : WriteCall) :
    ∃ lines rest, Lines newline (s.tx.kept call.buf.length ++ s.tx.accepted call.buf) lines rest ∧
      (MemcpysApart (genpipeWriteTrace call s.tx) ↔
        (s.tx.pending = [] ∨ ¬ s.tx.Overflows call.buf.length) ∧
          (Faults call.fault (s.tx.accepted call.buf).length ∨
            ShiftsApart call.alloc 0 lines rest)) := by
  have ready := (reached_ready low reached).1
  obtain ⟨ready', pending⟩ := ready.appended call.buf
  obtain ⟨lines, rest, read⟩ := Lines.exists_lines newline (s.tx.appended call.buf).pending
  refine ⟨lines, rest, pending ▸ read, ?_⟩
  rw [genpipeWriteTrace_eq ready, memcpysApart_append, memcpysApart_cons,
    makeRoomTrace_apart_iff ready, ← writeLoopTrace_apart_iff call.alloc _ 0 ready' read (Nat.le_refl _)]
  split
  · rename_i faults
    simp [faults, Access.Apart]
  · rename_i faultless
    simp [faultless, Access.Apart]

/-- Three equal lines in one write: six bytes move down by three. -/
theorem three_lines_overlap :
    let call := oneLine [0x30#8, 0x30#8, newline, 0x30#8, 0x30#8, newline, 0x30#8, 0x30#8]
    .memcpy 0x10000 0x10003 6 ∈ genpipeWriteTrace call (Tx.init (fun _ => 0) 0x10000) ∧
      ¬ MemcpysApart (genpipeWriteTrace call (Tx.init (fun _ => 0) 0x10000)) := by
  intro call
  have moved : .memcpy 0x10000 0x10003 6 ∈ genpipeWriteTrace call (Tx.init (fun _ => 0) 0x10000) := by
    decide
  refine ⟨moved, fun apart => ?_⟩
  have overlaps := apart _ moved
  simp [Access.Apart] at overlaps

/-- A line of two bytes with the first two of the next behind it: two bytes move down by three. -/
theorem memcpy_apart_sample :
    let call : WriteCall := { oneLine [] with buf := [0x31#8, 0x32#8, newline, 0x33#8, 0x34#8] }
    let tx := Tx.init (fun _ => 0) 0x10000
    ∃ lines rest, Lines newline (tx.kept call.buf.length ++ tx.accepted call.buf) lines rest ∧
      (MemcpysApart (genpipeWriteTrace call tx) ↔
        (tx.pending = [] ∨ ¬ tx.Overflows call.buf.length) ∧
          (Faults call.fault (tx.accepted call.buf).length ∨
            ShiftsApart call.alloc 0 lines rest)) ∧
      .memcpy 0x10000 0x10003 2 ∈ genpipeWriteTrace call tx := by
  intro call tx
  have fresh : run writeCall (Stream.init (fun _ => 0) 0x10000) [] =
      .ok (Stream.init (fun _ => 0) 0x10000) := rfl
  obtain ⟨lines, rest, read, apart⟩ :=
    memcpy_apart_iff (fun _ => 0) 0x10000 (by decide) fresh call
  exact ⟨lines, rest, read, apart, by decide⟩

end TestPrograms.Genpipe
