import TestPrograms.Foundations.Hex
import TestPrograms.Foundations.Lines
import TestPrograms.Genpipe.Transmit

/-! # What one `genpipe_write` does

One specification for each step of the call, from the character up: the decoder spells
the digits of its line, a round of the loop takes one line off the pending bytes, the
loop takes all of them, and the call appends its bytes first, unless it makes room.
-/

namespace TestPrograms.Genpipe

open TestPrograms.Foundations
open TestPrograms.Foundations.Memory
open TestPrograms.Linux

/-! ## The decoder -/

/-- The value the decoder gives a character: a digit, or any letter of either case. -/
def digitOf (c : Byte) : Option Byte :=
  if c = 0x20#8 then none
  else
    let c := if 0x61#8 ≤ c ∧ c ≤ 0x7a#8 then c - 0x20#8 else c
    if 0x30#8 ≤ c ∧ c ≤ 0x39#8 then some (c - 0x30#8)
    else if 0x41#8 ≤ c ∧ c ≤ 0x5a#8 then some (c - 0x41#8 + 10#8)
    else none

/-- The frame a line spells: its digits in pairs, cut at the MTU. -/
def frameOf (line : List Byte) : List Byte := (pairDigits (line.filterMap digitOf)).take mtu

def decodeLine (d : Decoder) : List Byte → Decoder
  | [] => d
  | c :: line => if d.frameLen < mtu then decodeLine (decodeChar d c).1 line else d

theorem decodeChar_fst (d : Decoder) (c : Byte) :
    (decodeChar d c).1 = match digitOf c with
      | some value => decodeDigit d value
      | none => d := by
  unfold decodeChar digitOf
  split
  · rfl
  · dsimp only
    split <;> split <;> first | rfl | (split <;> rfl)

/-- The loop rewrites only characters it has passed, so it decodes the line as it was. -/
theorem decodeLoop_decoder (count ptr : Nat) (memory : Memory) (d : Decoder) :
    (decodeLoop count ptr memory d).2 = decodeLine d (loadBytes memory ptr count) := by
  induction count generalizing ptr memory d with
  | zero => rfl
  | succ count ih =>
    simp only [decodeLoop, loadBytes, decodeLine]
    split
    · rw [ih]
      congr 1
      exact loadBytes_congr fun a low _ => Function.update_of_ne (by omega) _ _
    · rfl

theorem decodeLoop_frame (count ptr : Nat) (memory : Memory) (d : Decoder) (a : Nat)
    (beyond : ptr + count ≤ a) : (decodeLoop count ptr memory d).1 a = memory a := by
  induction count generalizing ptr memory d with
  | zero => rfl
  | succ count ih =>
    simp only [decodeLoop]
    split
    · rw [ih _ _ _ (by omega), Function.update_of_ne (by omega)]
    · rfl

/-- The bytes that digits spell behind a half byte already stored. -/
def spellFrom : Option Byte → List Byte → List Byte
  | none, digits => pairDigits digits
  | some _, [] => []
  | some high, low :: digits => (high ||| low) :: pairDigits digits

theorem spellFrom_none_cons (value : Byte) (digits : List Byte) :
    spellFrom none (value :: digits) = spellFrom (some (value <<< 4)) digits := by
  cases digits <;> rfl

def Decoder.half (d : Decoder) : Option Byte :=
  if d.pos = 0 then none else some (d.tmpPkt (d.frameLen + 14))

def Decoder.packet (d : Decoder) : List Byte := loadBytes d.tmpPkt 0 (d.frameLen + 14)

theorem decodeDigit_spells (d : Decoder) (value : Byte) (digits : List Byte) (room : d.frameLen < mtu) :
    d.packet ++ (spellFrom d.half (value :: digits)).take (mtu - d.frameLen) =
      (decodeDigit d value).packet ++
        (spellFrom (decodeDigit d value).half digits).take (mtu - (decodeDigit d value).frameLen) := by
  by_cases first : d.pos = 0
  · -- a first digit is not yet part of the packet and becomes the half byte
    have unchanged : (decodeDigit d value).packet = d.packet := by
      simp only [decodeDigit, first, if_true, Decoder.packet]
      exact loadBytes_congr fun a _ high => Function.update_of_ne (by omega) _ _
    rw [unchanged]
    simp [decodeDigit, first, Decoder.half, spellFrom_none_cons]
  · -- a second digit completes the byte in the half byte's place
    have grown : (decodeDigit d value).packet =
        d.packet ++ [d.tmpPkt (d.frameLen + 14) ||| value] := by
      simp only [decodeDigit, first, if_false, Decoder.packet]
      rw [show d.frameLen + 1 + 14 = d.frameLen + 14 + 1 by omega, loadBytes_add]
      congr 1
      · exact loadBytes_congr fun a _ high => Function.update_of_ne (by omega) _ _
      · simp [loadBytes]
    have left : mtu - d.frameLen = mtu - (d.frameLen + 1) + 1 := by omega
    rw [grown, List.append_assoc]
    simp only [Decoder.half, first, if_false, spellFrom, left, List.take_succ_cons, decodeDigit,
      if_true, List.singleton_append]

theorem decodeLine_packet (d : Decoder) (line : List Byte) (fits : d.frameLen ≤ mtu) :
    (decodeLine d line).packet =
      d.packet ++ (spellFrom d.half (line.filterMap digitOf)).take (mtu - d.frameLen) := by
  -- over the characters: each digit moves from what is still to be spelled to the packet
  induction line generalizing d with
  | nil =>
    cases half : d.half <;> simp [decodeLine, spellFrom, pairDigits]
  | cons c line ih =>
    simp only [decodeLine]
    split
    · rename_i room
      rw [decodeChar_fst]
      cases spelled : digitOf c with
      | none => simp only [ih d fits, List.filterMap_cons, spelled]
      | some value =>
        have fits' : (decodeDigit d value).frameLen ≤ mtu := by
          unfold decodeDigit
          split <;> dsimp only <;> omega
        simp only [List.filterMap_cons, spelled, ih _ fits']
        exact (decodeDigit_spells d _ _ room).symm
    · have full : mtu - d.frameLen = 0 := by omega
      simp [full]

theorem decodeLine_header (d : Decoder) (line : List Byte) {a : Nat} (header : a < 14) :
    (decodeLine d line).tmpPkt a = d.tmpPkt a := by
  induction line generalizing d with
  | nil => rfl
  | cons c line ih =>
    simp only [decodeLine]
    split
    · rw [ih, decodeChar_fst]
      split
      · unfold decodeDigit
        split <;> exact Function.update_of_ne (by omega) _ _
      · rfl
    · rfl

theorem decodeLine_fresh {tmpPkt : Memory} (header : ∀ a < 14, tmpPkt a = 0) (line : List Byte) :
    (decodeLine { tmpPkt, frameLen := 0, pos := 0 } line).packet =
      List.replicate 14 0 ++ frameOf line := by
  have zeros : loadBytes tmpPkt 0 14 = List.replicate 14 0 := by
    have zero : ∀ a, 0 ≤ a → a < 0 + 14 → tmpPkt a = (fun _ => 0 : Memory) a :=
      fun a _ high => header a (by omega)
    rw [loadBytes_congr zero]
    rfl
  rw [decodeLine_packet _ _ (Nat.zero_le _)]
  simp only [Decoder.packet, Decoder.half, if_true, spellFrom, Nat.zero_add, zeros, Nat.sub_zero,
    frameOf]

/-! ## One round of the loop -/

/-- The state between rounds and between calls. -/
structure Tx.Ready (s : Tx) : Prop where
  readStart : s.txReadPtr = s.txStartPtr
  startWrite : s.txStartPtr ≤ s.txWritePtr
  writeEnd : s.txWritePtr ≤ s.txEndPtr
  endTop : s.txEndPtr < 2 ^ 64
  header : ∀ a < 14, s.tmpPkt a = 0

theorem Tx.Ready.length_pending {s : Tx} (ready : s.Ready) :
    s.pending.length = s.txWritePtr - s.txStartPtr := by
  rw [pending, loadBytes_length, ready.readStart]

/-- What is sent of skbs that are built of frames behind a header: the frames. -/
theorem Tx.sent_of_built {ethTypeTrans : List Byte → List Byte} (pulls : PullsHeader ethTypeTrans)
    {s s' : Tx} {frames : List (List Byte)}
    (built : s'.built = s.built ++ frames.map fun frame => List.replicate 14 0 ++ frame) :
    s'.sent ethTypeTrans = s.sent ethTypeTrans ++ frames := by
  rw [sent, built, List.map_append, List.map_map]
  congr 1
  refine (List.map_congr_left fun frame _ => ?_).trans (List.map_id frames)
  rw [Function.comp_apply, pulls _ (by simp)]
  exact List.drop_left' (List.length_replicate ..)

/-- The allocator gives every request an skb with room for it behind the reserve. -/
def Roomy (alloc : Nat → Nat → Option Nat) : Prop :=
  ∀ round length, ∃ room, alloc round length = some room ∧ length + 2 ≤ room

/-- `s'` is `s` after the lines at the front of what was pending have been made skbs of. -/
structure Taken (s : Tx) (lines : List (List Byte)) (s' : Tx) : Prop where
  ready : s'.Ready
  start : s'.txStartPtr = s.txStartPtr
  stop : s'.txEndPtr = s.txEndPtr
  pending : s.pending = unlines newline lines ++ s'.pending
  handed : s'.handed = s.handed ++ lines
  built : s'.built = s.built ++ lines.map fun line => List.replicate 14 0 ++ frameOf line

theorem Taken.refl {s : Tx} (ready : s.Ready) : Taken s [] s :=
  ⟨ready, rfl, rfl, by simp [unlines], by simp, by simp⟩

theorem Taken.trans {s t u : Tx} {lines lines' : List (List Byte)} (first : Taken s lines t)
    (second : Taken t lines' u) : Taken s (lines ++ lines') u where
  ready := second.ready
  start := second.start.trans first.start
  stop := second.stop.trans first.stop
  pending := by rw [first.pending, second.pending, unlines_append, List.append_assoc]
  handed := by rw [second.handed, first.handed, List.append_assoc]
  built := by rw [second.built, first.built, List.map_append, List.append_assoc]

theorem sendFrame_cases (room : Option Nat) (tmpPkt : Memory) (frameLen : Nat) :
    (∃ stuck, sendFrame room tmpPkt frameLen = .error stuck ∧ stuck ≠ .noFuel ∧
      ¬ ∃ tail, room = some tail ∧ frameLen + 14 + 2 ≤ tail) ∨
    sendFrame room tmpPkt frameLen = .ok (loadBytes tmpPkt 0 (frameLen + 14)) := by
  cases room with
  | none => exact .inl ⟨.nullSkb, rfl, by decide, by simp⟩
  | some tail =>
    by_cases fits : frameLen + 14 ≤ tail - 2
    · exact .inr (by simp only [sendFrame, fits, if_true])
    · refine .inl ⟨.skbOverPanic, by simp only [sendFrame, fits, if_false], by decide, ?_⟩
      rintro ⟨_, same, fits'⟩
      cases same
      omega

theorem writeLine_spec {s : Tx} (ready : s.Ready) (alloc : Nat → Option Nat) {k : Nat}
    (inside : s.txStartPtr + k < s.txWritePtr) (ends : s.memory (s.txStartPtr + k) = newline) :
    (∃ stuck, writeLine alloc s (s.txStartPtr + k) = .error stuck ∧ stuck ≠ .noFuel ∧
      ¬ ∀ length, ∃ room, alloc length = some room ∧ length + 2 ≤ room) ∨
    ∃ s', writeLine alloc s (s.txStartPtr + k) = .ok s' ∧
      Taken s [loadBytes s.memory s.txStartPtr k] s' := by
  obtain ⟨readStart, startWrite, writeEnd, endTop, header⟩ := ready
  -- of the decoding loop only this matters: what it decodes, and that it writes in front
  -- of the newline
  have length : s.txStartPtr + k - s.txStartPtr = k := by omega
  unfold writeLine
  rw [readStart, length]
  have decoder := decodeLoop_decoder k s.txStartPtr s.memory { tmpPkt := s.tmpPkt, frameLen := 0, pos := 0 }
  have frame := decodeLoop_frame k s.txStartPtr s.memory { tmpPkt := s.tmpPkt, frameLen := 0, pos := 0 }
  generalize decodeLoop k s.txStartPtr s.memory { tmpPkt := s.tmpPkt, frameLen := 0, pos := 0 } = decoded at *
  obtain ⟨memory, d⟩ := decoded
  dsimp only at decoder frame ⊢
  rcases sendFrame_cases (alloc (d.frameLen + 14)) d.tmpPkt d.frameLen with
    ⟨stuck, fails, fuel, short⟩ | sends
  · exact .inl ⟨stuck, by simp only [fails], fuel, fun roomy => short (roomy _)⟩
  · refine .inr ⟨_, by simp only [sends]; rfl, ?_⟩
    have moved : s.txStartPtr + k + 1 - s.txStartPtr = k + 1 := by omega
    have back : s.txStartPtr + k + 1 - (k + 1) = s.txStartPtr := by omega
    simp only [moved, Nat.succ_pos, gt_iff_lt, if_true, back]
    -- the shift puts what follows the newline at the start
    have shifted : loadBytes (memcpy memory s.txStartPtr (s.txStartPtr + k + 1)
        (s.txWritePtr - (s.txStartPtr + k + 1))) s.txStartPtr
          (s.txWritePtr - (k + 1) - s.txStartPtr) =
        loadBytes s.memory (s.txStartPtr + k + 1) (s.txWritePtr - (s.txStartPtr + k + 1)) := by
      have stored := loadBytes_storeBytes memory s.txStartPtr
        (loadBytes memory (s.txStartPtr + k + 1) (s.txWritePtr - (s.txStartPtr + k + 1)))
      rw [loadBytes_length] at stored
      rw [show s.txWritePtr - (k + 1) - s.txStartPtr = s.txWritePtr - (s.txStartPtr + k + 1) by omega,
        memcpy, stored]
      exact loadBytes_congr fun a low _ => frame a (by omega)
    constructor
    · exact ⟨rfl, by simp only; omega, by simp only; omega, endTop, fun a low => by
        simp only [decoder, decodeLine_header _ _ low, header a low]⟩
    · rfl
    · rfl
    · simp only [Tx.pending, readStart, shifted, unlines, List.flatMap_cons, List.flatMap_nil,
        List.append_nil, List.append_assoc, List.singleton_append]
      rw [show s.txWritePtr - s.txStartPtr = k + (1 + (s.txWritePtr - (s.txStartPtr + k + 1))) by omega,
        loadBytes_add, loadBytes_add]
      simp [loadBytes, ends]
    · rfl
    · simp only [List.map_cons, List.map_nil, decoder]
      rw [← decodeLine_fresh header, Decoder.packet]

/-! ## The whole loop -/

theorem findCr_spec (memory : Memory) (ptr count : Nat) :
    ∃ k, findCr memory ptr count = ptr + k ∧ k ≤ count ∧ newline ∉ loadBytes memory ptr k ∧
      (k < count → memory (ptr + k) = newline) := by
  induction count generalizing ptr with
  | zero => exact ⟨0, rfl, Nat.le_refl _, by simp [loadBytes], fun more => absurd more (by omega)⟩
  | succ count ih =>
    simp only [findCr]
    split
    · rename_i here
      exact ⟨0, rfl, Nat.zero_le _, by simp [loadBytes], fun _ => here⟩
    · rename_i other
      obtain ⟨k, found, within, unbroken, ends⟩ := ih (ptr + 1)
      refine ⟨k + 1, by omega, by omega, ?_, fun more => ?_⟩
      · simp only [loadBytes, List.mem_cons, not_or]
        exact ⟨fun same => other same.symm, unbroken⟩
      · rw [show ptr + (k + 1) = ptr + 1 + k by omega]
        exact ends (by omega)

/-- Either no line is complete, or the first one ends at the newline found. -/
theorem Tx.Ready.findCr_cases {s : Tx} (ready : s.Ready) :
    (findCr s.memory s.txReadPtr (s.txWritePtr - s.txReadPtr) = s.txWritePtr ∧ newline ∉ s.pending) ∨
    ∃ k, findCr s.memory s.txReadPtr (s.txWritePtr - s.txReadPtr) = s.txStartPtr + k ∧
      s.txStartPtr + k < s.txWritePtr ∧ newline ∉ loadBytes s.memory s.txStartPtr k ∧
      s.memory (s.txStartPtr + k) = newline := by
  obtain ⟨k, found, within, unbroken, ends⟩ :=
    findCr_spec s.memory s.txReadPtr (s.txWritePtr - s.txReadPtr)
  have readStart := ready.readStart
  have startWrite := ready.startWrite
  by_cases none : k = s.txWritePtr - s.txReadPtr
  · refine .inl ⟨by omega, ?_⟩
    rwa [Tx.pending, ← none]
  · have newlineAt := ends (by omega)
    rw [readStart] at unbroken newlineAt
    exact .inr ⟨k, by omega, by omega, unbroken, newlineAt⟩

theorem writeLoop_spec (alloc : Nat → Nat → Option Nat) (fuel round : Nat) {s : Tx}
    (ready : s.Ready) (enough : s.pending.length ≤ fuel) :
    (∃ stuck, writeLoop alloc fuel round s = .error stuck ∧ stuck ≠ .noFuel ∧ ¬ Roomy alloc) ∨
    ∃ s' lines, writeLoop alloc fuel round s = .ok s' ∧ Taken s lines s' ∧
      Lines newline s.pending lines s'.pending := by
  -- a round takes a newline at least, so fuel for every pending byte is enough
  induction fuel generalizing round s with
  | zero =>
    have empty : s.txWritePtr - s.txReadPtr = 0 := by
      rw [Tx.pending, loadBytes_length] at enough
      omega
    have atEnd : s.txReadPtr = s.txWritePtr := by
      have := ready.readStart
      have := ready.startWrite
      omega
    refine .inr ⟨s, [], ?_, Taken.refl ready, Lines.nil_of_not_mem ?_⟩
    · simp [writeLoop, findCr, atEnd]
    · simp [Tx.pending, empty, loadBytes]
  | succ fuel ih =>
    rcases ready.findCr_cases with ⟨none, unfinished⟩ | ⟨k, found, inside, unbroken, ends⟩
    · exact .inr ⟨s, [], by simp [writeLoop, none], Taken.refl ready, Lines.nil_of_not_mem unfinished⟩
    · simp only [writeLoop, found, Nat.ne_of_lt inside, if_false]
      rcases writeLine_spec ready (alloc round) inside ends with
        ⟨stuck, fails, fuel, short⟩ | ⟨t, takes, taken⟩
      · exact .inl ⟨stuck, by simp only [fails], fuel, fun roomy => short (roomy round)⟩
      · simp only [takes]
        have shorter := congrArg List.length taken.pending
        simp only [unlines, List.flatMap_cons, List.flatMap_nil, List.append_nil,
          List.length_append, List.length_cons, List.length_nil] at shorter
        rcases ih (round + 1) taken.ready (by omega) with
          ⟨stuck, fails, rest⟩ | ⟨u, lines, loops, later, read⟩
        · exact .inl ⟨stuck, fails, rest⟩
        · refine .inr ⟨u, _, loops, taken.trans later, ?_⟩
          have front := Lines.cons unbroken read
          rw [taken.pending]
          simpa [unlines] using front

/-! ## The call -/

/-- What is left of the pending bytes when the call appends its own. -/
def Tx.kept (s : Tx) (count : Nat) : List Byte := if s.Overflows count then [] else s.pending

def Tx.accepted (s : Tx) (buf : List Byte) : List Byte :=
  buf.take (s.txEndPtr - s.txStartPtr - (s.kept buf.length).length)

/-- Everything is kept where the make-room branch is not taken or finds nothing to drop. -/
theorem Tx.kept_eq_pending {s : Tx} {count : Nat} (keeps : s.pending = [] ∨ ¬ s.Overflows count) :
    s.kept count = s.pending := by
  unfold Tx.kept
  split
  · rename_i overflows
    exact (keeps.resolve_right (not_not_intro overflows)).symm
  · rfl

theorem Tx.take_accepted (s : Tx) (buf : List Byte) :
    buf.take (s.accepted buf).length = s.accepted buf := by
  rw [Tx.accepted, List.take_eq_take_iff, List.length_take]
  omega

/-- Making room keeps the buffer as it is and forgets what was pending. -/
theorem makeRoom_spec {s : Tx} (ready : s.Ready) (count : Nat) :
    makeRoom s count = { s with txWritePtr := s.txStartPtr + (s.kept count).length } := by
  have readStart := ready.readStart
  have startWrite := ready.startWrite
  unfold makeRoom Tx.kept
  split
  · -- reading from the start, the branch moves the buffer onto itself
    have same : memcpy s.memory s.txStartPtr s.txReadPtr (s.txWritePtr - s.txStartPtr) = s.memory := by
      rw [readStart, memcpy, storeBytes_loadBytes]
    have reset : s.txWritePtr - (s.txWritePtr - s.txStartPtr) = s.txStartPtr := by omega
    simp only [same, reset, Nat.lt_irrefl, if_false, List.length_nil, Nat.add_zero]
    rw [← readStart]
  · rw [ready.length_pending, show s.txStartPtr + (s.txWritePtr - s.txStartPtr) = s.txWritePtr by omega]

theorem Tx.Ready.kept_eq {s : Tx} (ready : s.Ready) (count : Nat) :
    loadBytes s.memory s.txStartPtr (s.kept count).length = s.kept count := by
  unfold Tx.kept
  split
  · rfl
  · rw [ready.length_pending, Tx.pending, ready.readStart]

theorem Tx.Ready.kept_fits {s : Tx} (ready : s.Ready) (count : Nat) :
    (s.kept count).length ≤ s.txEndPtr - s.txStartPtr := by
  have := ready.writeEnd
  unfold Tx.kept
  split
  · exact Nat.zero_le _
  · rw [ready.length_pending]
    omega

def Tx.appended (s : Tx) (buf : List Byte) : Tx :=
  { s with
    memory := storeBytes s.memory (s.txStartPtr + (s.kept buf.length).length) (s.accepted buf)
    txWritePtr := s.txStartPtr + (s.kept buf.length).length + (s.accepted buf).length }

theorem Tx.Ready.appended {s : Tx} (ready : s.Ready) (buf : List Byte) :
    (s.appended buf).Ready ∧
      (s.appended buf).pending = s.kept buf.length ++ s.accepted buf := by
  have fits := ready.kept_fits buf.length
  have short : (s.accepted buf).length ≤ s.txEndPtr - s.txStartPtr - (s.kept buf.length).length := by
    rw [Tx.accepted, List.length_take]
    omega
  have stops : s.txStartPtr ≤ s.txEndPtr := Nat.le_trans ready.startWrite ready.writeEnd
  refine ⟨⟨ready.readStart, ?_, ?_, ready.endTop, ready.header⟩, ?_⟩
  · simp only [Tx.appended]
    omega
  · simp only [Tx.appended]
    omega
  · simp only [Tx.pending, Tx.appended, ready.readStart]
    rw [Nat.add_assoc, Nat.add_sub_cancel_left, loadBytes_add, loadBytes_storeBytes,
      loadBytes_storeBytes_below (Nat.le_refl _), ready.kept_eq]

/-- The state in which a call whose user copy faults returns: the bytes are placed, not counted. -/
def Tx.faulted (s : Tx) (buf : List Byte) (fault : Option Nat) : Tx :=
  { s with
    memory := storeBytes s.memory (s.txStartPtr + (s.kept buf.length).length)
      (copyFromUser buf (s.accepted buf).length fault).2
    txWritePtr := s.txStartPtr + (s.kept buf.length).length }

theorem count_eq_accepted (s : Tx) (buf : List Byte) :
    (if buf.length > s.txEndPtr - (s.txStartPtr + (s.kept buf.length).length) then
      s.txEndPtr - (s.txStartPtr + (s.kept buf.length).length) else buf.length) =
      (s.accepted buf).length := by
  rw [Tx.accepted, List.length_take, Nat.sub_add_eq]
  split <;> omega

theorem genpipeWrite_eq {s : Tx} (ready : s.Ready) (call : WriteCall) :
    genpipeWrite call s =
      if Faults call.fault (s.accepted call.buf).length then
        .ok (.error .EFAULT, s.faulted call.buf call.fault)
      else
        (writeLoop call.alloc (s.appended call.buf).pending.length 0 (s.appended call.buf)).map
          fun s' => (.ok (s.accepted call.buf).length, s') := by
  obtain ⟨ready', -⟩ := ready.appended call.buf
  have fuel : (s.appended call.buf).txWritePtr - (s.appended call.buf).txReadPtr =
      (s.appended call.buf).pending.length := by
    rw [ready'.length_pending, ready'.readStart]
  unfold genpipeWrite
  rw [makeRoom_spec ready, ← fuel]
  simp only [count_eq_accepted]
  by_cases faults : Faults call.fault (s.accepted call.buf).length
  · have left := faults.left
    simp only [copyFromUser, left, ne_eq, not_false_eq_true, if_true, faults, Tx.faulted]
  · have all := copied_of_not_faults faults
    simp only [copyFromUser, all, Nat.sub_self, ne_eq, not_true_eq_false, if_false, List.replicate_zero,
      List.append_nil, Tx.take_accepted, faults, Tx.appended]
    cases writeLoop call.alloc _ 0 _ <;> rfl

/-- A call whose user copy does not fault appends what it accepts to what it keeps,
    takes the lines off and returns the number of bytes accepted. -/
theorem genpipeWrite_spec {s : Tx} (ready : s.Ready) (call : WriteCall)
    (faultless : ¬ Faults call.fault (s.accepted call.buf).length) :
    (∃ stuck, genpipeWrite call s = .error stuck ∧ stuck ≠ .noFuel ∧ ¬ Roomy call.alloc) ∨
    ∃ s' lines, genpipeWrite call s = .ok (.ok (s.accepted call.buf).length, s') ∧
      Taken (s.appended call.buf) lines s' ∧
      Lines newline (s.kept call.buf.length ++ s.accepted call.buf) lines s'.pending := by
  obtain ⟨ready', pending⟩ := ready.appended call.buf
  rw [genpipeWrite_eq ready, if_neg faultless]
  rcases writeLoop_spec call.alloc _ 0 ready' (Nat.le_refl _) with
    ⟨stuck, fails, rest⟩ | ⟨s', lines, loops, taken, read⟩
  · exact .inl ⟨stuck, by rw [fails]; rfl, rest⟩
  · exact .inr ⟨s', lines, by rw [loops]; rfl, taken, pending ▸ read⟩

/-- A call whose user copy faults keeps what it would have kept, and accepts and sends nothing. -/
theorem genpipeWrite_error {s s' : Tx} (ready : s.Ready) {call : WriteCall} {errno : Errno}
    (returns : genpipeWrite call s = .ok (.error errno, s')) :
    s'.pending = s.kept call.buf.length ∧ s'.built = s.built := by
  rw [genpipeWrite_eq ready] at returns
  split at returns
  · cases returns
    refine ⟨?_, rfl⟩
    simp only [Tx.pending, Tx.faulted, ready.readStart, Nat.add_sub_cancel_left]
    rw [loadBytes_storeBytes_below (Nat.le_refl _), ready.kept_eq]
  · cases loops : writeLoop call.alloc (s.appended call.buf).pending.length 0 (s.appended call.buf) <;>
      rw [loops] at returns <;> cases returns

/-- Every call that returns, also one whose user copy faults, leaves the state ready. -/
theorem genpipeWrite_ready {s s' : Tx} (ready : s.Ready) {call : WriteCall} {ret : Except Errno Nat}
    (returns : genpipeWrite call s = .ok (ret, s')) :
    s'.Ready ∧ s'.txStartPtr = s.txStartPtr ∧ s'.txEndPtr = s.txEndPtr := by
  rw [genpipeWrite_eq ready] at returns
  split at returns
  · cases returns
    have fits := ready.kept_fits call.buf.length
    have stops : s.txStartPtr ≤ s.txEndPtr := Nat.le_trans ready.startWrite ready.writeEnd
    exact ⟨⟨ready.readStart, by simp only [Tx.faulted]; omega, by simp only [Tx.faulted]; omega,
      ready.endTop, ready.header⟩, rfl, rfl⟩
  · rcases writeLoop_spec call.alloc _ 0 (ready.appended call.buf).1 (Nat.le_refl _) with
      ⟨stuck, fails, -⟩ | ⟨t, lines, loops, taken, -⟩
    · rw [fails] at returns
      cases returns
    · rw [loops] at returns
      cases returns
      exact ⟨taken.ready, taken.start, taken.stop⟩

end TestPrograms.Genpipe
