import TestPrograms.Genpipe.HexDigits

/-! # Accesses to the transmit buffer

What a call reads and writes of the buffer and of `tmp_pkt`, access by access, in functions
that branch as those of the call do.  All of it stays inside, whatever was written before.
-/

namespace TestPrograms.Genpipe

open TestPrograms.Foundations
open TestPrograms.Foundations.Memory
open TestPrograms.Linux

/-- `load` and `store` are of a character in the buffer, `memcpy` and `copyFromUser` of
    `count` of them; `copyTmp` is the copy of the first bytes of `tmp_pkt` to the skb. -/
inductive Access where
  | load (ptr : Nat)
  | store (ptr : Nat)
  | memcpy (dst src count : Nat)
  | copyFromUser (dst count : Nat)
  | loadTmp (index : Nat)
  | storeTmp (index : Nat)
  | copyTmp (count : Nat)
  deriving DecidableEq, Repr

/-! ## The accesses of a call -/

def findCrTrace (memory : Memory) : Nat → Nat → List Access
  | _, 0 => []
  | ptr, count + 1 =>
    .load ptr :: if memory ptr = newline then [] else findCrTrace memory (ptr + 1) count

def decodeDigitTrace (d : Decoder) : List Access :=
  if d.pos = 0 then [.storeTmp (d.frameLen + 14)]
  else [.loadTmp (d.frameLen + 14), .storeTmp (d.frameLen + 14)]

/-- One load stands for those of all the tests. -/
def decodeCharTrace (d : Decoder) (ptr : Nat) (c : Byte) : List Access :=
  if c = 0x20#8 then [.load ptr]
  else
    let folds := 0x61#8 ≤ c ∧ c ≤ 0x7a#8
    let folding := if folds then [Access.load ptr, .store ptr] else [.load ptr]
    let c := if folds then c - 0x20#8 else c
    if 0x30#8 ≤ c ∧ c ≤ 0x39#8 then folding ++ decodeDigitTrace d
    else if 0x41#8 ≤ c ∧ c ≤ 0x5a#8 then folding ++ decodeDigitTrace d
    else folding

def decodeTrace : Nat → Nat → Memory → Decoder → List Access
  | 0, _, _, _ => []
  | count + 1, ptr, memory, d =>
    if d.frameLen < mtu then
      decodeCharTrace d ptr (memory ptr) ++
        decodeTrace count (ptr + 1) (Function.update memory ptr (decodeChar d (memory ptr)).2)
          (decodeChar d (memory ptr)).1
    else []

def writeLineTrace (alloc : Nat → Option Nat) (s : Tx) (cr : Nat) : List Access :=
  let d := (decodeLoop (cr - s.txReadPtr) s.txReadPtr s.memory (.fresh s.tmpPkt)).2
  decodeTrace (cr - s.txReadPtr) s.txReadPtr s.memory (.fresh s.tmpPkt) ++
    match sendFrame (alloc (d.frameLen + 14)) d.tmpPkt d.frameLen with
    | .error _ => []
    | .ok _ =>
      .copyTmp (d.frameLen + 14) ::
        if cr + 1 - s.txStartPtr > 0 then
          [.memcpy s.txStartPtr (cr + 1) (s.txWritePtr - (cr + 1))]
        else []

def writeLoopTrace (alloc : Nat → Nat → Option Nat) : Nat → Nat → Tx → List Access
  | fuel, round, s =>
    let cr := findCr s.memory s.txReadPtr (s.txWritePtr - s.txReadPtr)
    findCrTrace s.memory s.txReadPtr (s.txWritePtr - s.txReadPtr) ++
      if cr = s.txWritePtr then []
      else match fuel with
        | 0 => []
        | fuel + 1 =>
          writeLineTrace (alloc round) s cr ++
            match writeLine (alloc round) s cr with
            | .error _ => []
            | .ok s => writeLoopTrace alloc fuel (round + 1) s

def makeRoomTrace (s : Tx) (count : Nat) : List Access :=
  if s.Overflows count then [.memcpy s.txStartPtr s.txReadPtr (s.txWritePtr - s.txStartPtr)] else []

def genpipeWriteTrace (call : WriteCall) (s : Tx) : List Access :=
  makeRoomTrace s call.buf.length ++
    let s := makeRoom s call.buf.length
    let room := s.txEndPtr - s.txWritePtr
    let count := if call.buf.length > room then room else call.buf.length
    let (left, placed) := copyFromUser call.buf count call.fault
    let s := { s with memory := storeBytes s.memory s.txWritePtr placed }
    .copyFromUser s.txWritePtr count ::
      if left ≠ 0 then []
      else
        let s := { s with txWritePtr := s.txWritePtr + count }
        writeLoopTrace call.alloc (s.txWritePtr - s.txReadPtr) 0 s

/-! ## What a line's accesses are -/

section

variable {P : Access → Prop} {ptr count : Nat}

theorem forall_findCrTrace (memory : Memory) (load : ∀ a, ptr ≤ a → a < ptr + count → P (.load a)) :
    ∀ access ∈ findCrTrace memory ptr count, P access := by
  induction count generalizing ptr with
  | zero => exact List.forall_mem_nil _
  | succ count ih =>
    rw [findCrTrace, List.forall_mem_cons]
    refine ⟨load ptr (Nat.le_refl _) (by omega), ?_⟩
    split
    · exact List.forall_mem_nil _
    · exact ih fun a low high => load a (by omega) (by omega)

/-- Of the decoder's accesses it matters only to which characters and bytes they go. -/
structure OfDecoder (P : Access → Prop) (ptr count : Nat) : Prop where
  load : ∀ a, ptr ≤ a → a < ptr + count → P (.load a)
  store : ∀ a, ptr ≤ a → a < ptr + count → P (.store a)
  loadTmp : ∀ index < mtu + 14, P (.loadTmp index)
  storeTmp : ∀ index < mtu + 14, P (.storeTmp index)

theorem OfDecoder.digit (holds : OfDecoder P ptr count) {d : Decoder} (room : d.frameLen < mtu) :
    ∀ access ∈ decodeDigitTrace d, P access := by
  have inside : d.frameLen + 14 < mtu + 14 := by omega
  unfold decodeDigitTrace
  split <;> simp [holds.loadTmp _ inside, holds.storeTmp _ inside]

theorem OfDecoder.char (holds : OfDecoder P ptr (count + 1)) {d : Decoder} (c : Byte)
    (room : d.frameLen < mtu) : ∀ access ∈ decodeCharTrace d ptr c, P access := by
  have load := holds.load ptr (Nat.le_refl _) (by omega)
  have store := holds.store ptr (Nat.le_refl _) (by omega)
  have folding : ∀ access ∈ if 0x61#8 ≤ c ∧ c ≤ 0x7a#8 then [.load ptr, .store ptr] else [.load ptr],
      P access := by
    split <;> simp [load, store]
  unfold decodeCharTrace
  split
  · simp [load]
  · dsimp only
    generalize (if 0x61#8 ≤ c ∧ c ≤ 0x7a#8 then [Access.load ptr, .store ptr] else [.load ptr]) =
      accesses at folding ⊢
    generalize (if 0x61#8 ≤ c ∧ c ≤ 0x7a#8 then c - 0x20#8 else c) = folded
    have both := List.forall_mem_append.mpr ⟨folding, holds.digit room⟩
    split
    · exact both
    · split
      · exact both
      · exact folding

theorem forall_decodeTrace (memory : Memory) (d : Decoder) (holds : OfDecoder P ptr count) :
    ∀ access ∈ decodeTrace count ptr memory d, P access := by
  induction count generalizing ptr memory d with
  | zero => exact List.forall_mem_nil _
  | succ count ih =>
    rw [decodeTrace]
    split
    · rename_i room
      refine List.forall_mem_append.mpr ⟨holds.char _ room, ih _ _ ?_⟩
      exact ⟨fun a low high => holds.load a (by omega) (by omega),
        fun a low high => holds.store a (by omega) (by omega), holds.loadTmp, holds.storeTmp⟩
    · exact List.forall_mem_nil _

end

/-! ## Inside the buffer -/

def Access.InBounds (start stop : Nat) : Access → Prop
  | .load ptr | .store ptr => start ≤ ptr ∧ ptr < stop
  | .memcpy dst src count =>
    ∀ i < count, (start ≤ dst + i ∧ dst + i < stop) ∧ start ≤ src + i ∧ src + i < stop
  | .copyFromUser dst count => ∀ i < count, start ≤ dst + i ∧ dst + i < stop
  | .loadTmp index | .storeTmp index => index < mtu + 14
  | .copyTmp count => ∀ index < count, index < mtu + 14

def InBounds (s : Tx) (trace : List Access) : Prop :=
  ∀ access ∈ trace, access.InBounds s.txStartPtr s.txEndPtr

section

variable {s : Tx} {first second : List Access}

@[simp] theorem inBounds_nil : InBounds s [] := List.forall_mem_nil _

@[simp] theorem inBounds_cons {access : Access} :
    InBounds s (access :: first) ↔ access.InBounds s.txStartPtr s.txEndPtr ∧ InBounds s first :=
  List.forall_mem_cons

@[simp] theorem inBounds_append :
    InBounds s (first ++ second) ↔ InBounds s first ∧ InBounds s second :=
  List.forall_mem_append

theorem findCrTrace_inBounds (memory : Memory) {ptr count : Nat} (low : s.txStartPtr ≤ ptr)
    (high : ptr + count ≤ s.txEndPtr) : InBounds s (findCrTrace memory ptr count) :=
  forall_findCrTrace memory fun _ _ _ => ⟨by omega, by omega⟩

theorem decodeTrace_inBounds {ptr count : Nat} (memory : Memory) (d : Decoder)
    (low : s.txStartPtr ≤ ptr) (high : ptr + count ≤ s.txEndPtr) :
    InBounds s (decodeTrace count ptr memory d) :=
  forall_decodeTrace memory d
    ⟨fun _ _ _ => ⟨by omega, by omega⟩, fun _ _ _ => ⟨by omega, by omega⟩, fun _ inside => inside,
      fun _ inside => inside⟩

theorem writeLineTrace_inBounds (ready : s.Ready) (alloc : Nat → Option Nat) {cr : Nat}
    (low : s.txReadPtr ≤ cr) (inside : cr < s.txWritePtr) : InBounds s (writeLineTrace alloc s cr) := by
  obtain ⟨readStart, startWrite, writeEnd, -, -⟩ := ready
  have short := decodeLoop_frameLen (cr - s.txReadPtr) s.txReadPtr s.memory s.tmpPkt
  rw [frameOf_length] at short
  rw [writeLineTrace, inBounds_append]
  refine ⟨decodeTrace_inBounds _ _ (by omega) (by omega), ?_⟩
  split
  · exact inBounds_nil
  · rw [inBounds_cons]
    refine ⟨fun index bound => by omega, ?_⟩
    split
    · rw [inBounds_cons]
      exact ⟨fun i bound => by omega, inBounds_nil⟩
    · exact inBounds_nil

theorem lookTrace_inBounds (ready : s.Ready) :
    InBounds s (findCrTrace s.memory s.txReadPtr (s.txWritePtr - s.txReadPtr)) := by
  have readStart := ready.readStart
  have writeEnd := ready.writeEnd
  have startWrite := ready.startWrite
  exact findCrTrace_inBounds _ (by omega) (by omega)

theorem writeLoopTrace_inBounds (alloc : Nat → Nat → Option Nat) (fuel round : Nat) (ready : s.Ready) :
    InBounds s (writeLoopTrace alloc fuel round s) := by
  -- each round leaves a ready state with the same two ends
  induction fuel generalizing round s with
  | zero =>
    rw [writeLoopTrace, inBounds_append]
    refine ⟨lookTrace_inBounds ready, ?_⟩
    split <;> exact inBounds_nil
  | succ fuel ih =>
    have readStart := ready.readStart
    rw [writeLoopTrace, inBounds_append]
    refine ⟨lookTrace_inBounds ready, ?_⟩
    rcases ready.findCr_cases with ⟨none, -⟩ | ⟨k, found, inside, -, ends⟩
    · simp only [none, if_true, inBounds_nil]
    · simp only [found, Nat.ne_of_lt inside, if_false]
      rw [inBounds_append]
      refine ⟨writeLineTrace_inBounds ready _ (by omega) inside, ?_⟩
      rcases writeLine_spec ready (alloc round) inside ends with ⟨stuck, fails, -⟩ | ⟨t, takes, taken⟩
      · rw [fails]
        exact inBounds_nil
      · rw [takes]
        have later := ih (round + 1) taken.ready
        rwa [InBounds, taken.start, taken.stop] at later

theorem makeRoomTrace_inBounds (ready : s.Ready) (count : Nat) : InBounds s (makeRoomTrace s count) := by
  have readStart := ready.readStart
  have writeEnd := ready.writeEnd
  unfold makeRoomTrace
  split
  · rw [inBounds_cons]
    exact ⟨fun i bound => by omega, inBounds_nil⟩
  · exact inBounds_nil

theorem genpipeWriteTrace_eq (ready : s.Ready) (call : WriteCall) :
    genpipeWriteTrace call s =
      makeRoomTrace s call.buf.length ++
        .copyFromUser (s.txStartPtr + (s.kept call.buf.length).length) (s.accepted call.buf).length ::
          if Faults call.fault (s.accepted call.buf).length then []
          else writeLoopTrace call.alloc (s.appended call.buf).pending.length 0 (s.appended call.buf) := by
  obtain ⟨ready', -⟩ := ready.appended call.buf
  have fuel : (s.appended call.buf).txWritePtr - (s.appended call.buf).txReadPtr =
      (s.appended call.buf).pending.length := by
    rw [ready'.length_pending, ready'.readStart]
  unfold genpipeWriteTrace
  rw [makeRoom_spec ready, ← fuel]
  simp only [count_eq_accepted]
  by_cases faults : Faults call.fault (s.accepted call.buf).length
  · have left := faults.left
    simp only [copyFromUser, left, ne_eq, not_false_eq_true, if_true, faults]
  · have all := copied_of_not_faults faults
    simp only [copyFromUser, all, Nat.sub_self, ne_eq, not_true_eq_false, if_false, List.replicate_zero,
      List.append_nil, Tx.take_accepted, faults, Tx.appended]

theorem genpipeWriteTrace_inBounds (ready : s.Ready) (call : WriteCall) :
    InBounds s (genpipeWriteTrace call s) := by
  have fits := ready.kept_fits call.buf.length
  have short : (s.accepted call.buf).length ≤
      s.txEndPtr - s.txStartPtr - (s.kept call.buf.length).length := by
    rw [Tx.accepted, List.length_take]
    omega
  rw [genpipeWriteTrace_eq ready, inBounds_append, inBounds_cons]
  refine ⟨makeRoomTrace_inBounds ready _, fun i bound => by omega, ?_⟩
  split
  · exact inBounds_nil
  · exact writeLoopTrace_inBounds _ _ _ (ready.appended call.buf).1

theorem genpipeWrite_ends (ready : s.Ready) (call : WriteCall) :
    genpipeWrite call s ≠ .error .noFuel ∧
      (Roomy call.alloc → ∃ done, genpipeWrite call s = .ok done) := by
  rw [genpipeWrite_eq ready]
  split
  · exact ⟨by simp, fun _ => ⟨_, rfl⟩⟩
  · rcases writeLoop_spec call.alloc _ 0 (ready.appended call.buf).1 (Nat.le_refl _) with
      ⟨stuck, fails, fuel, poor⟩ | ⟨t, lines, loops, -⟩
    · rw [fails]
      exact ⟨fun same => fuel (Except.error.inj same), fun roomy => absurd roomy poor⟩
    · rw [loops]
      exact ⟨nofun, fun _ => ⟨_, rfl⟩⟩

/-! ## What is written is in the trace -/

def Access.Writes : Access → Nat → Prop
  | .store ptr, a => a = ptr
  | .memcpy dst _ count, a | .copyFromUser dst count, a => dst ≤ a ∧ a < dst + count
  | _, _ => False

def Access.WritesTmp : Access → Nat → Prop
  | .storeTmp index, i => i = index
  | _, _ => False

/-- Bytes that no access writes are the same in both states. -/
structure Kept (trace : List Access) (memory tmpPkt memory' tmpPkt' : Memory) : Prop where
  buffer : ∀ a, (∀ access ∈ trace, ¬ access.Writes a) → memory' a = memory a
  tmpPkt : ∀ i, (∀ access ∈ trace, ¬ access.WritesTmp i) → tmpPkt' i = tmpPkt i

theorem Kept.refl (trace : List Access) (memory tmpPkt : Memory) :
    Kept trace memory tmpPkt memory tmpPkt := ⟨fun _ _ => rfl, fun _ _ => rfl⟩

theorem Kept.append {memory tmpPkt memory' tmpPkt' memory'' tmpPkt'' : Memory}
    (front : Kept first memory tmpPkt memory' tmpPkt')
    (back : Kept second memory' tmpPkt' memory'' tmpPkt'') :
    Kept (first ++ second) memory tmpPkt memory'' tmpPkt'' where
  buffer a unwritten :=
    (back.buffer a fun access member => unwritten access (List.mem_append_right _ member)).trans
      (front.buffer a fun access member => unwritten access (List.mem_append_left _ member))
  tmpPkt i unwritten :=
    (back.tmpPkt i fun access member => unwritten access (List.mem_append_right _ member)).trans
      (front.tmpPkt i fun access member => unwritten access (List.mem_append_left _ member))

theorem kept_memcpy (memory tmpPkt : Memory) (dst src count : Nat) :
    Kept [.memcpy dst src count] memory tmpPkt (memcpy memory dst src count) tmpPkt where
  buffer a unwritten := by
    have outside := unwritten _ List.mem_cons_self
    simp only [Access.Writes] at outside
    exact storeBytes_frame _ _ _ _ (by rw [loadBytes_length]; omega)
  tmpPkt _ _ := rfl

theorem decodeDigit_kept (d : Decoder) (value : Byte) (memory : Memory) :
    Kept (decodeDigitTrace d) memory d.tmpPkt memory (decodeDigit d value).tmpPkt where
  buffer _ _ := rfl
  tmpPkt i unwritten := by
    have other : i ≠ d.frameLen + 14 := by
      refine unwritten (.storeTmp (d.frameLen + 14)) ?_
      unfold decodeDigitTrace
      split <;> simp
    unfold decodeDigit
    split <;> exact Function.update_of_ne other _ _

theorem decodeChar_kept (d : Decoder) (ptr : Nat) (memory : Memory) :
    Kept (decodeCharTrace d ptr (memory ptr)) memory d.tmpPkt
      (Function.update memory ptr (decodeChar d (memory ptr)).2) (decodeChar d (memory ptr)).1.tmpPkt := by
  unfold decodeCharTrace decodeChar
  split
  · rw [Function.update_eq_self]
    exact Kept.refl _ _ _
  · -- the character is stored back only if it was folded
    have folding : Kept (if 0x61#8 ≤ memory ptr ∧ memory ptr ≤ 0x7a#8 then
        [Access.load ptr, .store ptr] else [.load ptr]) memory d.tmpPkt
        (Function.update memory ptr (if 0x61#8 ≤ memory ptr ∧ memory ptr ≤ 0x7a#8 then
          memory ptr - 0x20#8 else memory ptr)) d.tmpPkt := by
      split
      · refine ⟨fun a unwritten => Function.update_of_ne ?_ _ _, fun _ _ => rfl⟩
        exact unwritten (.store ptr) (by simp)
      · rw [Function.update_eq_self]
        exact Kept.refl _ _ _
    dsimp only
    generalize (if 0x61#8 ≤ memory ptr ∧ memory ptr ≤ 0x7a#8 then
      [Access.load ptr, .store ptr] else [.load ptr]) = accesses at folding ⊢
    generalize (if 0x61#8 ≤ memory ptr ∧ memory ptr ≤ 0x7a#8 then
      memory ptr - 0x20#8 else memory ptr) = folded at folding ⊢
    split
    · exact folding.append (decodeDigit_kept d _ _)
    · split
      · exact folding.append (decodeDigit_kept d _ _)
      · exact folding

theorem decodeLoop_kept (count ptr : Nat) (memory : Memory) (d : Decoder) :
    Kept (decodeTrace count ptr memory d) memory d.tmpPkt
      (decodeLoop count ptr memory d).1 (decodeLoop count ptr memory d).2.tmpPkt := by
  induction count generalizing ptr memory d with
  | zero => exact Kept.refl _ _ _
  | succ count ih =>
    rw [decodeTrace, decodeLoop]
    split
    · exact (decodeChar_kept d ptr memory).append (ih _ _ _)
    · exact Kept.refl _ _ _

theorem writeLine_kept {alloc : Nat → Option Nat} {cr : Nat} {s' : Tx}
    (takes : writeLine alloc s cr = .ok s') :
    Kept (writeLineTrace alloc s cr) s.memory s.tmpPkt s'.memory s'.tmpPkt := by
  have decodes := decodeLoop_kept (cr - s.txReadPtr) s.txReadPtr s.memory (.fresh s.tmpPkt)
  unfold writeLine at takes
  unfold writeLineTrace
  rw [← Decoder.fresh] at takes
  generalize decodeLoop (cr - s.txReadPtr) s.txReadPtr s.memory (.fresh s.tmpPkt) = decoded at *
  obtain ⟨memory, d⟩ := decoded
  dsimp only at takes decodes ⊢
  refine decodes.append ?_
  cases sends : sendFrame (alloc (d.frameLen + 14)) d.tmpPkt d.frameLen with
  | error stuck =>
    rw [sends] at takes
    cases takes
  | ok packet =>
    rw [sends] at takes
    cases takes
    dsimp only
    split
    · exact (Kept.refl [.copyTmp (d.frameLen + 14)] _ _).append (kept_memcpy _ _ _ _ _)
    · exact Kept.refl _ _ _

theorem writeLoop_kept (alloc : Nat → Nat → Option Nat) (fuel round : Nat) {s' : Tx}
    (loops : writeLoop alloc fuel round s = .ok s') :
    Kept (writeLoopTrace alloc fuel round s) s.memory s.tmpPkt s'.memory s'.tmpPkt := by
  induction fuel generalizing round s with
  | zero =>
    rw [writeLoop] at loops
    split at loops
    · cases loops
      exact Kept.refl _ _ _
    · cases loops
  | succ fuel ih =>
    rw [writeLoop] at loops
    rw [writeLoopTrace]
    refine (Kept.refl _ _ _).append ?_
    split at loops
    · rename_i none
      rw [if_pos none]
      cases loops
      exact Kept.refl _ _ _
    · rename_i more
      rw [if_neg more]
      cases takes : writeLine (alloc round) s
          (findCr s.memory s.txReadPtr (s.txWritePtr - s.txReadPtr)) with
      | error stuck =>
        simp only [takes] at loops
        cases loops
      | ok t =>
        simp only [takes] at loops
        exact (writeLine_kept takes).append (ih _ loops)

/-- A call changes only bytes that its trace has a store or copy to. -/
theorem genpipeWrite_kept (ready : s.Ready) {call : WriteCall} {ret : Except Errno Nat} {s' : Tx}
    (returns : genpipeWrite call s = .ok (ret, s')) :
    Kept (genpipeWriteTrace call s) s.memory s.tmpPkt s'.memory s'.tmpPkt := by
  have placed (bytes : List Byte) (length : bytes.length = (s.accepted call.buf).length) :
      Kept [.copyFromUser (s.txStartPtr + (s.kept call.buf.length).length) (s.accepted call.buf).length]
        s.memory s.tmpPkt
        (storeBytes s.memory (s.txStartPtr + (s.kept call.buf.length).length) bytes) s.tmpPkt := by
    refine ⟨fun a unwritten => storeBytes_frame _ _ _ _ ?_, fun _ _ => rfl⟩
    have outside := unwritten _ List.mem_cons_self
    simp only [Access.Writes] at outside
    omega
  have enough : (s.accepted call.buf).length ≤ call.buf.length := by
    rw [Tx.accepted, List.length_take]
    exact Nat.min_le_right _ _
  rw [genpipeWrite_eq ready] at returns
  rw [genpipeWriteTrace_eq ready]
  -- making room moves the buffer onto itself
  refine (Kept.refl (makeRoomTrace s call.buf.length) _ _).append ?_
  split at returns
  · rename_i faults
    rw [if_pos faults]
    cases returns
    exact placed _ (copyFromUser_length _ _ _ enough)
  · rename_i faultless
    rw [if_neg faultless]
    cases loops : writeLoop call.alloc (s.appended call.buf).pending.length 0 (s.appended call.buf) with
    | error stuck =>
      rw [loops] at returns
      cases returns
    | ok t =>
      rw [loops] at returns
      cases returns
      exact (placed _ rfl).append (writeLoop_kept _ _ _ loops)

end

/-! ## What lies outside does not matter -/

/-- The memory has the same bytes in the buffer. -/
def Tx.Agrees (s : Tx) (memory : Memory) : Prop :=
  ∀ a, s.txStartPtr ≤ a → a < s.txEndPtr → memory a = s.memory a

/-- With this memory the call goes as it does, and leaves the same bytes in the buffer. -/
def SameCall (call : WriteCall) (s : Tx) (memory : Memory) : Prop :=
  (∃ stuck, genpipeWrite call s = .error stuck ∧
    genpipeWrite call { s with memory } = .error stuck) ∨
  ∃ ret s' memory', genpipeWrite call s = .ok (ret, s') ∧
    genpipeWrite call { s with memory } = .ok (ret, { s' with memory := memory' }) ∧
    s'.Agrees memory'

section

variable {s : Tx} {memory : Memory}

theorem findCr_congr {left right : Memory} {ptr count : Nat}
    (agree : ∀ a, ptr ≤ a → a < ptr + count → left a = right a) :
    findCr left ptr count = findCr right ptr count := by
  induction count generalizing ptr with
  | zero => rfl
  | succ count ih =>
    rw [findCr, findCr, agree ptr (Nat.le_refl _) (by omega),
      ih fun a low high => agree a (by omega) (by omega)]

theorem decodeLoop_agree {left right : Memory} {lo hi ptr : Nat} (count : Nat) (d : Decoder)
    (agree : ∀ a, lo ≤ a → a < hi → left a = right a) (low : lo ≤ ptr) (high : ptr + count ≤ hi) :
    (decodeLoop count ptr left d).2 = (decodeLoop count ptr right d).2 ∧
      ∀ a, lo ≤ a → a < hi → (decodeLoop count ptr left d).1 a = (decodeLoop count ptr right d).1 a := by
  induction count generalizing ptr left right d with
  | zero => exact ⟨rfl, agree⟩
  | succ count ih =>
    have here := agree ptr low (by omega)
    rw [decodeLoop, decodeLoop, here]
    split
    · refine ih _ (fun a above below => ?_) (by omega) (by omega)
      by_cases same : a = ptr
      · subst same
        rw [Function.update_self, Function.update_self]
      · rw [Function.update_of_ne same, Function.update_of_ne same]
        exact agree a above below
    · exact ⟨rfl, agree⟩

theorem storeBytes_agree {left right : Memory} {lo hi : Nat}
    (agree : ∀ a, lo ≤ a → a < hi → left a = right a) (dst : Nat) (bytes : List Byte) :
    ∀ a, lo ≤ a → a < hi → storeBytes left dst bytes a = storeBytes right dst bytes a := by
  intro a above below
  rw [storeBytes_apply, storeBytes_apply]
  split
  · rfl
  · exact agree a above below

theorem memcpy_agree {left right : Memory} {lo hi : Nat}
    (agree : ∀ a, lo ≤ a → a < hi → left a = right a) (dst src count : Nat) (low : lo ≤ src)
    (high : src + count ≤ hi) :
    ∀ a, lo ≤ a → a < hi → memcpy left dst src count a = memcpy right dst src count a := by
  intro a above below
  have moved : loadBytes left src count = loadBytes right src count :=
    loadBytes_congr fun b low' high' => agree b (by omega) (by omega)
  rw [memcpy, memcpy, moved]
  exact storeBytes_agree agree _ _ a above below

theorem Tx.Ready.with_memory (ready : s.Ready) (memory : Memory) : Tx.Ready { s with memory } :=
  ⟨ready.readStart, ready.startWrite, ready.writeEnd, ready.endTop, ready.header⟩

theorem Tx.Agrees.pending (agrees : s.Agrees memory) (ready : s.Ready) :
    Tx.pending { s with memory } = s.pending := by
  have readStart := ready.readStart
  have writeEnd := ready.writeEnd
  change loadBytes memory s.txReadPtr (s.txWritePtr - s.txReadPtr) = _
  exact loadBytes_congr fun a low high => agrees a (by omega) (by omega)

theorem Tx.Agrees.kept (agrees : s.Agrees memory) (ready : s.Ready) (count : Nat) :
    Tx.kept { s with memory } count = s.kept count := by
  unfold Tx.kept
  rw [agrees.pending ready]
  rfl

theorem Tx.Agrees.findCr (agrees : s.Agrees memory) (ready : s.Ready) :
    Genpipe.findCr memory s.txReadPtr (s.txWritePtr - s.txReadPtr) =
      Genpipe.findCr s.memory s.txReadPtr (s.txWritePtr - s.txReadPtr) := by
  have readStart := ready.readStart
  have startWrite := ready.startWrite
  have writeEnd := ready.writeEnd
  exact findCr_congr fun a low high => agrees a (by omega) (by omega)

theorem Tx.Agrees.writeLine (agrees : s.Agrees memory) (ready : s.Ready) (alloc : Nat → Option Nat)
    {cr : Nat} (low : s.txReadPtr ≤ cr) (inside : cr < s.txWritePtr) :
    (∃ stuck, writeLine alloc s cr = .error stuck ∧
      Genpipe.writeLine alloc { s with memory } cr = .error stuck) ∨
    ∃ s' memory', Genpipe.writeLine alloc s cr = .ok s' ∧
      Genpipe.writeLine alloc { s with memory } cr = .ok { s' with memory := memory' } ∧
      s'.Agrees memory' := by
  obtain ⟨readStart, startWrite, writeEnd, -, -⟩ := ready
  have line : loadBytes memory s.txReadPtr (cr - s.txReadPtr) =
      loadBytes s.memory s.txReadPtr (cr - s.txReadPtr) :=
    loadBytes_congr fun a above below => agrees a (by omega) (by omega)
  obtain ⟨decoder, decoded⟩ := decodeLoop_agree (cr - s.txReadPtr) (.fresh s.tmpPkt) agrees
    (Nat.le_of_eq readStart.symm) (by omega)
  have moves : cr + 1 - s.txStartPtr > 0 := by omega
  unfold Genpipe.writeLine
  dsimp only
  rw [← Decoder.fresh, line]
  generalize decodeLoop (cr - s.txReadPtr) s.txReadPtr s.memory (.fresh s.tmpPkt) = left at *
  generalize decodeLoop (cr - s.txReadPtr) s.txReadPtr memory (.fresh s.tmpPkt) = right at *
  obtain ⟨leftMemory, d⟩ := left
  obtain ⟨rightMemory, d'⟩ := right
  dsimp only at decoder decoded ⊢
  subst decoder
  cases sendFrame (alloc (d'.frameLen + 14)) d'.tmpPkt d'.frameLen with
  | error stuck => exact .inl ⟨stuck, rfl, rfl⟩
  | ok packet =>
    simp only [moves, if_true]
    have moved := memcpy_agree decoded s.txStartPtr (cr + 1) (s.txWritePtr - (cr + 1)) (by omega)
      (by omega)
    exact .inr ⟨_, _, rfl, rfl, moved⟩

theorem Tx.Agrees.writeLoop (alloc : Nat → Nat → Option Nat) (fuel round : Nat) (ready : s.Ready)
    (agrees : s.Agrees memory) :
    (∃ stuck, writeLoop alloc fuel round s = .error stuck ∧
      Genpipe.writeLoop alloc fuel round { s with memory } = .error stuck) ∨
    ∃ s' memory', Genpipe.writeLoop alloc fuel round s = .ok s' ∧
      Genpipe.writeLoop alloc fuel round { s with memory } = .ok { s' with memory := memory' } ∧
      s'.Agrees memory' := by
  induction fuel generalizing round s memory with
  | zero =>
    unfold Genpipe.writeLoop
    dsimp only
    rw [agrees.findCr ready]
    split
    · exact .inr ⟨s, memory, rfl, rfl, agrees⟩
    · exact .inl ⟨.noFuel, rfl, rfl⟩
  | succ fuel ih =>
    rw [Genpipe.writeLoop, Genpipe.writeLoop]
    dsimp only
    rw [agrees.findCr ready]
    rcases ready.findCr_cases with ⟨none, -⟩ | ⟨k, found, inside, -, ends⟩
    · rw [if_pos none, if_pos none]
      exact .inr ⟨s, memory, rfl, rfl, agrees⟩
    · rw [found, if_neg (Nat.ne_of_lt inside), if_neg (Nat.ne_of_lt inside)]
      have low := Nat.le_trans (Nat.le_of_eq ready.readStart) (Nat.le_add_right s.txStartPtr k)
      rcases agrees.writeLine ready (alloc round) low inside with
        ⟨stuck, fails, fails'⟩ | ⟨t, memory', takes, takes', agrees'⟩
      · rw [fails, fails']
        exact .inl ⟨stuck, rfl, rfl⟩
      · rw [takes, takes']
        rcases writeLine_spec ready (alloc round) inside ends with
          ⟨stuck, fails, -⟩ | ⟨t', takes'', taken⟩
        · rw [takes] at fails
          cases fails
        · rw [takes] at takes''
          cases takes''
          exact ih (round + 1) taken.ready agrees'

/-- Nothing a call does depends on a byte outside the buffer. -/
theorem genpipeWrite_agree (ready : s.Ready) (agrees : s.Agrees memory) (call : WriteCall) :
    SameCall call s memory := by
  have kept := agrees.kept ready call.buf.length
  have accepted : Tx.accepted { s with memory } call.buf = s.accepted call.buf := by
    rw [Tx.accepted, Tx.accepted, kept]
  rw [SameCall, genpipeWrite_eq ready, genpipeWrite_eq (ready.with_memory memory), accepted]
  split
  · refine .inr ⟨_, _, _, rfl, ?_, storeBytes_agree agrees
      (s.txStartPtr + (s.kept call.buf.length).length)
      (copyFromUser call.buf (s.accepted call.buf).length call.fault).2⟩
    simp only [Tx.faulted, kept, accepted]
  · have appends : Tx.appended { s with memory } call.buf =
        { s.appended call.buf with
          memory := storeBytes memory (s.txStartPtr + (s.kept call.buf.length).length)
            (s.accepted call.buf) } := by
      simp only [Tx.appended, kept, accepted]
    have agrees' : (s.appended call.buf).Agrees (storeBytes memory
        (s.txStartPtr + (s.kept call.buf.length).length) (s.accepted call.buf)) :=
      storeBytes_agree agrees _ _
    have ready' := (ready.appended call.buf).1
    rw [appends, agrees'.pending ready']
    rcases agrees'.writeLoop call.alloc (s.appended call.buf).pending.length 0 ready' with
      ⟨stuck, fails, fails'⟩ | ⟨t, memory', loops, loops', later⟩
    · rw [fails, fails']
      exact .inl ⟨stuck, rfl, rfl⟩
    · rw [loops, loops']
      exact .inr ⟨_, t, memory', rfl, rfl, later⟩

end

/-! ## Every sequence of calls -/

/-- Between calls the read pointer is at the start and the write pointer between the two ends; a
    call reads and writes the buffer only between them and `tmp_pkt` only below its length, and
    it ends.  No byte changes but those listed as written, and no memory beyond the buffer matters. -/
theorem transmit_buffer_invariant (memory : Memory) (start : Nat) (low : start + packetBufMax ≤ 2 ^ 64)
    {earlier : List WriteCall} {s : Stream}
    (reached : run writeCall (Stream.init memory start) earlier = .ok s) :
    (s.tx.txReadPtr = s.tx.txStartPtr ∧ s.tx.txStartPtr ≤ s.tx.txWritePtr ∧
      s.tx.txWritePtr ≤ s.tx.txEndPtr) ∧
    ∀ call, InBounds s.tx (genpipeWriteTrace call s.tx) ∧
      (∀ ret s', genpipeWrite call s.tx = .ok (ret, s') →
        Kept (genpipeWriteTrace call s.tx) s.tx.memory s.tx.tmpPkt s'.memory s'.tmpPkt) ∧
      (∀ other, s.tx.Agrees other → SameCall call s.tx other) ∧
      genpipeWrite call s.tx ≠ .error .noFuel ∧
      (Roomy call.alloc → ∃ done, genpipeWrite call s.tx = .ok done) := by
  have ready := (reached_ready low reached).1
  refine ⟨⟨ready.readStart, ready.startWrite, ready.writeEnd⟩, fun call => ?_⟩
  refine ⟨genpipeWriteTrace_inBounds ready call, fun ret s' returns => ?_, fun other agrees => ?_,
    genpipeWrite_ends ready call⟩
  · exact genpipeWrite_kept ready returns
  · exact genpipeWrite_agree ready agrees call

/-- After a call whose copy faulted at once. -/
theorem transmit_buffer_sample :
    ∃ s, run writeCall (Stream.init (fun _ => 0) 0x10000) [{ oneLine [0x30#8] with fault := some 0 }] = .ok s ∧
      s.tx.txReadPtr = s.tx.txStartPtr ∧ s.tx.txWritePtr ≤ s.tx.txEndPtr ∧
      InBounds s.tx (genpipeWriteTrace (oneLine [0x30#8]) s.tx) ∧
      ∃ ret s', genpipeWrite (oneLine [0x30#8]) s.tx = .ok (ret, s') ∧
        Kept (genpipeWriteTrace (oneLine [0x30#8]) s.tx) s.tx.memory s.tx.tmpPkt s'.memory s'.tmpPkt := by
  obtain ⟨s, reached⟩ : ∃ s, run writeCall (Stream.init (fun _ => 0) 0x10000)
      [{ oneLine [0x30#8] with fault := some 0 }] = .ok s := ⟨_, rfl⟩
  obtain ⟨⟨readStart, -, writeEnd⟩, calls⟩ :=
    transmit_buffer_invariant (fun _ => 0) 0x10000 (by decide) reached
  obtain ⟨inBounds, kept, -, -, returns⟩ := calls (oneLine [0x30#8])
  obtain ⟨⟨ret, s'⟩, returns⟩ := returns fun _ length => ⟨length + 2, rfl, Nat.le_refl _⟩
  exact ⟨s, reached, readStart, writeEnd, inBounds, ret, s', returns, kept ret s' returns⟩

end TestPrograms.Genpipe
