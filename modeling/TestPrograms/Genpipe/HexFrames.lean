import TestPrograms.Genpipe.Stream

/-! # Frames written as hexadecimal text

A frame is rendered as two digits a byte, in either case, with filler anywhere between
them, and a newline.  A text that fits into the buffer never makes the device make room,
so however it is cut into calls its frames are sent as they are, in order.
-/

namespace TestPrograms.Genpipe

open TestPrograms.Foundations
open TestPrograms.Linux

/-- Neither an ASCII letter nor a digit nor the newline. -/
def IsFiller (c : Byte) : Prop :=
  ¬ (0x41#8 ≤ c ∧ c ≤ 0x5a#8) ∧ ¬ (0x61#8 ≤ c ∧ c ≤ 0x7a#8) ∧ ¬ (0x30#8 ≤ c ∧ c ≤ 0x39#8) ∧
    c ≠ newline

instance (c : Byte) : Decidable (IsFiller c) := inferInstanceAs (Decidable (_ ∧ _))

/-- `line` is the digits of `frame`, with filler put in anywhere. -/
structure Renders (frame line : List Byte) : Prop where
  chars : ∀ c ∈ line, IsFiller c ∨ (hexDigit? c).isSome
  digits : line.filterMap hexDigit? = frame.flatMap nibbles

/-! ## The decoder on rendered frames -/

theorem filler_no_digit : ∀ c : Byte, IsFiller c → digitOf c = none ∧ hexDigit? c = none := by
  decide

theorem hexDigit_digit : ∀ c : Byte, (hexDigit? c).isSome → digitOf c = hexDigit? c := by
  decide

theorem newline_no_char : ¬ (IsFiller newline ∨ (hexDigit? newline).isSome) := by
  decide

theorem Renders.newline_not_mem {frame line : List Byte} (renders : Renders frame line) :
    newline ∉ line :=
  fun member => newline_no_char (renders.chars newline member)

theorem filterMap_digitOf {line : List Byte}
    (chars : ∀ c ∈ line, IsFiller c ∨ (hexDigit? c).isSome) :
    line.filterMap digitOf = line.filterMap hexDigit? := by
  apply List.filterMap_congr
  intro c member
  cases chars c member with
  | inl filler => rw [(filler_no_digit c filler).1, (filler_no_digit c filler).2]
  | inr digit => exact hexDigit_digit c digit

theorem Renders.frameOf_eq {frame line : List Byte} (renders : Renders frame line)
    (short : frame.length ≤ mtu) : frameOf line = frame := by
  rw [frameOf, filterMap_digitOf renders.chars, renders.digits, pairDigits_nibbles,
    List.take_of_length_le short]

theorem map_frameOf {frames lines : List (List Byte)} (renders : List.Forall₂ Renders frames lines)
    (short : ∀ frame ∈ frames, frame.length ≤ mtu) : lines.map frameOf = frames := by
  induction renders with
  | nil => rfl
  | cons head _ ih =>
    rw [List.map_cons, head.frameOf_eq (short _ List.mem_cons_self),
      ih fun frame member => short frame (List.mem_cons_of_mem _ member)]

theorem lines_of_renders {frames lines : List (List Byte)}
    (renders : List.Forall₂ Renders frames lines) :
    Lines newline (unlines newline lines) lines [] := by
  refine ⟨(List.append_nil _).symm, ?_, List.not_mem_nil⟩
  induction renders with
  | nil => exact List.forall_mem_nil _
  | cons head _ ih =>
    intro line member
    cases member with
    | head => exact head.newline_not_mem
    | tail _ member => exact ih line member

/-! ## A run of calls that fits -/

def offered (calls : List WriteCall) : List Byte := calls.flatMap WriteCall.buf

theorem fitting_call {s : Tx} (ready : s.Ready) {buf : List Byte}
    (fits : s.pending.length + buf.length ≤ s.txEndPtr - s.txStartPtr) :
    s.kept buf.length = s.pending ∧ s.accepted buf = buf := by
  have startWrite := ready.startWrite
  have endTop := ready.endTop
  have writeEnd := ready.writeEnd
  have length := ready.length_pending
  -- the end of the buffer is below 2^64, so the sum in the test does not wrap
  have calm : ¬ s.Overflows buf.length := by
    rw [Tx.Overflows, Nat.mod_eq_of_lt (by omega)]
    omega
  have kept : s.kept buf.length = s.pending := by
    rw [Tx.kept, if_neg calm]
  refine ⟨kept, ?_⟩
  rw [Tx.accepted, kept]
  exact List.take_of_length_le (by omega)

/-- While all that is pending and to come fits into the buffer, every call accepts all of
    its bytes and the run reads the whole as one stream. -/
theorem run_fitting {s : Stream} {calls : List WriteCall} (ready : s.tx.Ready)
    (unfinished : newline ∉ s.tx.pending)
    (faultless : ∀ call ∈ calls, call.fault = none) (roomy : ∀ call ∈ calls, Roomy call.alloc)
    (fits : s.tx.pending.length + (offered calls).length ≤ s.tx.txEndPtr - s.tx.txStartPtr) :
    ∃ final lines, run writeCall s calls = .ok final ∧ final.tx.Ready ∧
      final.accepted = s.accepted ++ offered calls ∧
      final.tx.built = s.tx.built ++ lines.map (fun line => List.replicate 14 0 ++ frameOf line) ∧
      Lines newline (s.tx.pending ++ offered calls) lines final.tx.pending := by
  induction calls generalizing s with
  | nil =>
    refine ⟨s, [], rfl, ready, by simp [offered], by simp, ?_⟩
    rw [offered, List.flatMap_nil, List.append_nil]
    exact Lines.nil_of_not_mem unfinished
  | cons call calls ih =>
    have offers : offered (call :: calls) = call.buf ++ offered calls := List.flatMap_cons
    rw [offers, List.length_append] at fits
    have room : s.tx.pending.length + call.buf.length ≤ s.tx.txEndPtr - s.tx.txStartPtr := by omega
    obtain ⟨kept, accepted⟩ := fitting_call ready room
    rcases writeCall_advances ready (faultless call List.mem_cons_self) with
      ⟨_, _, _, poor⟩ | ⟨next, lines, steps, advanced⟩
    · exact absurd (roomy call List.mem_cons_self) poor
    · -- lines only leave the buffer, so what is left of the text fits behind the rest
      have read := advanced.read
      rw [kept, accepted] at read
      have shrinks := read.length_eq
      rw [List.length_append] at shrinks
      obtain ⟨final, lines', returns, ready', all, built, read'⟩ := ih advanced.ready
        read.unfinished (fun c member => faultless c (List.mem_cons_of_mem _ member))
        (fun c member => roomy c (List.mem_cons_of_mem _ member))
        (by rw [advanced.start, advanced.stop]; omega)
      refine ⟨final, lines ++ lines', ?_, ready', ?_, ?_, ?_⟩
      · rw [run_cons_ok calls steps, returns]
      · rw [all, advanced.accepted, accepted, offers, List.append_assoc]
      · rw [built, advanced.built, List.map_append, List.append_assoc]
      · rw [offers, ← List.append_assoc]
        exact read.append read'

/-- Whatever calls were made before, the buffer is between its two ends and the header of
    `tmp_pkt` is zero. -/
theorem reached_ready {memory : Memory} {start : Nat} (low : start + packetBufMax ≤ 2 ^ 64)
    {earlier : List WriteCall} {s : Stream}
    (reached : run writeCall (Stream.init memory start) earlier = .ok s) :
    s.tx.Ready ∧ s.tx.txStartPtr = start ∧ s.tx.txEndPtr = start + packetBufMax - 1 := by
  refine run_invariant (fun t => t.tx.Ready ∧ t.tx.txStartPtr = start ∧
    t.tx.txEndPtr = start + packetBufMax - 1) ?_ ⟨Tx.Ready.init memory low, rfl, rfl⟩
    (along_of_forall fun _ _ _ => trivial) reached
  rintro t call next ⟨ready, first, last⟩ _ steps
  unfold writeCall at steps
  cases writes : genpipeWrite call t.tx with
  | error stuck =>
    rw [writes] at steps
    cases steps
  | ok done =>
    obtain ⟨ret, tx⟩ := done
    obtain ⟨ready', start', stop'⟩ := genpipeWrite_ready ready writes
    rw [writes] at steps
    cases ret with
    | error fault =>
      cases steps
      exact ⟨ready', start'.trans first, stop'.trans last⟩
    | ok copyLen =>
      cases steps
      exact ⟨ready', start'.trans first, stop'.trans last⟩

/-- Whenever the buffer is empty, frames of up to the MTU, rendered and cut into calls in
    any way, are sent as they are and leave nothing in the buffer; what earlier calls left in
    `tmp_pkt` does not matter. -/
theorem hex_frames_sent {ethTypeTrans : List Byte → List Byte} (pulls : PullsHeader ethTypeTrans)
    (memory : Memory) (start : Nat) (low : start + packetBufMax ≤ 2 ^ 64)
    {earlier : List WriteCall} {s : Stream}
    (reached : run writeCall (Stream.init memory start) earlier = .ok s)
    (empty : s.tx.txReadPtr = s.tx.txWritePtr)
    {frames lines : List (List Byte)} (renders : List.Forall₂ Renders frames lines)
    (short : ∀ frame ∈ frames, frame.length ≤ mtu)
    (fits : (unlines newline lines).length ≤ packetBufMax - 1)
    {calls : List WriteCall} (offers : offered calls = unlines newline lines)
    (faultless : ∀ call ∈ calls, call.fault = none) (roomy : ∀ call ∈ calls, Roomy call.alloc) :
    ∃ final, run writeCall s calls = .ok final ∧
      final.accepted = s.accepted ++ unlines newline lines ∧
      final.tx.built = s.tx.built ++ frames.map (fun frame => List.replicate 14 0 ++ frame) ∧
      final.tx.sent ethTypeTrans = s.tx.sent ethTypeTrans ++ frames ∧
      final.tx.txReadPtr = final.tx.txWritePtr := by
  obtain ⟨ready, first, last⟩ := reached_ready low reached
  have none : s.tx.pending = [] := by
    rw [Tx.pending, empty, Nat.sub_self]
    rfl
  have room : s.tx.pending.length + (offered calls).length ≤ s.tx.txEndPtr - s.tx.txStartPtr := by
    rw [none, first, last, offers, List.length_nil]
    omega
  have unfinished : newline ∉ s.tx.pending := by
    rw [none]
    exact List.not_mem_nil
  obtain ⟨final, lines', returns, ready, accepted, built, read⟩ :=
    run_fitting ready unfinished faultless roomy room
  rw [none, List.nil_append, offers] at read
  -- the text has one reading as lines, and it is the rendering
  obtain ⟨rfl, done⟩ := read.unique (lines_of_renders renders)
  replace built : final.tx.built =
      s.tx.built ++ frames.map fun frame => List.replicate 14 0 ++ frame := by
    have recoded := congrArg (List.map fun frame => List.replicate 14 (0 : Byte) ++ frame)
      (map_frameOf renders short)
    rw [List.map_map] at recoded
    rw [built, ← recoded]
    rfl
  refine ⟨final, returns, by rw [accepted, offers], built, Tx.sent_of_built pulls built, ?_⟩
  have length := ready.length_pending
  have startWrite := ready.startWrite
  rw [done, List.length_nil] at length
  rw [ready.readStart]
  omega

/-- `aB` and an empty line, cut inside the byte. -/
def cutByte : List WriteCall :=
  [{ buf := [0x61#8], fault := none, alloc := fun _ length => some (length + 2) },
   { buf := [0x20#8, 0x42#8, 0x0a#8, 0x0a#8], fault := none,
     alloc := fun _ length => some (length + 2) }]

/-- The fourteen zero bytes do not come to `dev_queue_xmit`. -/
theorem header_pulled :
    ∃ final, run writeCall (Stream.init (fun _ => 0) 0x10000) cutByte = .ok final ∧
      final.tx.sent pullHeader = [[0xab#8], []] ∧
      final.tx.sent pullHeader ≠ [[0xab#8], []].map fun frame => List.replicate 14 0 ++ frame := by
  have outcome : (run writeCall (Stream.init (fun _ => 0) 0x10000) cutByte).map
      (fun s => s.tx.sent pullHeader) = .ok [[0xab#8], []] := by
    decide +kernel
  cases returns : run writeCall (Stream.init (fun _ => 0) 0x10000) cutByte with
  | error stuck =>
    rw [returns] at outcome
    cases outcome
  | ok final =>
    rw [returns] at outcome
    have sent : final.tx.sent pullHeader = [[0xab#8], []] := Except.ok.inj outcome
    refine ⟨final, rfl, sent, ?_⟩
    rw [sent]
    decide

theorem hex_frames_sent_sample :
    ∃ final, run writeCall (Stream.init (fun _ => 0) 0x10000) cutByte = .ok final ∧
      final.accepted = unlines newline [[0x61#8, 0x20#8, 0x42#8], []] ∧
      final.tx.built = [[0xab#8], []].map (fun frame => List.replicate 14 0 ++ frame) ∧
      final.tx.sent pullHeader = [[0xab#8], []] ∧ final.tx.txReadPtr = final.tx.txWritePtr := by
  have fresh : run writeCall (Stream.init (fun _ => 0) 0x10000) [] =
      .ok (Stream.init (fun _ => 0) 0x10000) := rfl
  have renders : List.Forall₂ Renders [[0xab#8], []] [[0x61#8, 0x20#8, 0x42#8], []] :=
    .cons ⟨by decide, by decide⟩ (.cons ⟨by decide, by decide⟩ .nil)
  exact hex_frames_sent pullHeader_pulls (fun _ => 0) 0x10000 (by decide) fresh rfl renders (by decide)
    (by decide) (by rfl) (by simp [cutByte]) (by simp [cutByte, Roomy])

end TestPrograms.Genpipe
