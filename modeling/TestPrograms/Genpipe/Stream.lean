import TestPrograms.Foundations.Runs
import TestPrograms.Genpipe.WriteSpec

/-! # The transmit stream

What the calls accept is one stream, cut anywhere; what the decoder should be handed is
its lines, and what should stay pending is the unfinished one.  The make-room branch
drops the pending bytes instead of moving them, so this holds of a run exactly when no
call takes that branch with bytes pending.  Once bytes are dropped they are missing for
good: the length handed on and pending never catches up with the length accepted.
-/

namespace TestPrograms.Genpipe

open TestPrograms.Foundations
open TestPrograms.Linux

/-- The device with all the bytes it has accepted. -/
structure Stream where
  tx : Tx
  accepted : List Byte

def Stream.init (memory : Memory) (start : Nat) : Stream where
  tx := Tx.init memory start
  accepted := []

/-- A call accepts the first `copy_len` bytes, `copy_len` being what it returns. -/
def writeCall (s : Stream) (call : WriteCall) : Except Stuck Stream :=
  match genpipeWrite call s.tx with
  | .error stuck => .error stuck
  | .ok (.ok copyLen, tx) => .ok { tx, accepted := s.accepted ++ call.buf.take copyLen }
  | .ok (.error _, tx) => .ok { s with tx }

/-- The make-room branch is not taken, or there is nothing for it to drop. -/
def KeepsPending (s : Stream) (call : WriteCall) : Prop :=
  s.tx.pending = [] ∨ ¬ s.tx.Overflows call.buf.length

/-- The number of accepted bytes that are still accounted for. -/
def Stream.carried (s : Stream) : Nat :=
  (unlines newline s.tx.handed).length + s.tx.pending.length

theorem Tx.Ready.init (memory : Memory) {start : Nat} (low : start + packetBufMax ≤ 2 ^ 64) :
    (Tx.init memory start).Ready := by
  refine ⟨rfl, Nat.le_refl _, ?_, ?_, fun _ _ => rfl⟩
  · simp only [Tx.init, packetBufMax]
    omega
  · simp only [Tx.init, packetBufMax] at low ⊢
    omega

theorem Stream.init_pending (memory : Memory) (start : Nat) :
    (Stream.init memory start).tx.pending = [] := by
  simp [Stream.init, Tx.init, Tx.pending, Memory.loadBytes]

theorem Stream.init_txStartPtr (memory : Memory) (start : Nat) :
    (Stream.init memory start).tx.txStartPtr = start := rfl

theorem Stream.init_txEndPtr (memory : Memory) (start : Nat) :
    (Stream.init memory start).tx.txEndPtr = start + packetBufMax - 1 := rfl

theorem keepsPending_of_kept {s : Stream} {call : WriteCall}
    (kept : s.tx.pending.length ≤ (s.tx.kept call.buf.length).length) : KeepsPending s call := by
  unfold Tx.kept at kept
  split at kept
  · exact .inl (List.eq_nil_of_length_eq_zero (by simpa using kept))
  · rename_i fits
    exact .inr fits

/-- One call: what was kept and what was accepted make up the lines taken and the bytes
    now pending. -/
structure Advanced (s : Stream) (call : WriteCall) (s' : Stream) (lines : List (List Byte)) :
    Prop where
  ready : s'.tx.Ready
  start : s'.tx.txStartPtr = s.tx.txStartPtr
  stop : s'.tx.txEndPtr = s.tx.txEndPtr
  accepted : s'.accepted = s.accepted ++ s.tx.accepted call.buf
  handed : s'.tx.handed = s.tx.handed ++ lines
  built : s'.tx.built = s.tx.built ++ lines.map fun line => List.replicate 14 0 ++ frameOf line
  read : Lines newline (s.tx.kept call.buf.length ++ s.tx.accepted call.buf) lines s'.tx.pending

theorem writeCall_advances {s : Stream} (ready : s.tx.Ready) {call : WriteCall}
    (faultless : call.fault = none) :
    (∃ stuck, writeCall s call = .error stuck ∧ stuck ≠ .noFuel ∧ ¬ Roomy call.alloc) ∨
    ∃ s' lines, writeCall s call = .ok s' ∧ Advanced s call s' lines := by
  rcases genpipeWrite_spec ready call (faultless ▸ not_faults_none _) with
    ⟨stuck, fails, rest⟩ | ⟨tx, lines, writes, taken, read⟩
  · exact .inl ⟨stuck, by simp only [writeCall, fails], rest⟩
  · refine .inr ⟨_, lines, by simp only [writeCall, writes]; rfl, ?_⟩
    refine ⟨taken.ready, taken.start, taken.stop, ?_, taken.handed, taken.built, read⟩
    simp only [Tx.take_accepted]

theorem advanced_of_ok {s s' : Stream} (ready : s.tx.Ready) {call : WriteCall}
    (faultless : call.fault = none) (returns : writeCall s call = .ok s') :
    ∃ lines, Advanced s call s' lines := by
  rcases writeCall_advances ready faultless with ⟨stuck, fails, -⟩ | ⟨t, lines, writes, advanced⟩
  · rw [fails] at returns
    cases returns
  · rw [writes] at returns
    cases returns
    exact ⟨lines, advanced⟩

theorem Advanced.lines {s s' : Stream} {call : WriteCall} {lines : List (List Byte)}
    (advanced : Advanced s call s' lines) (keeps : KeepsPending s call)
    (read : Lines newline s.accepted s.tx.handed s.tx.pending) :
    Lines newline s'.accepted s'.tx.handed s'.tx.pending := by
  rw [advanced.accepted, advanced.handed]
  exact read.append (Tx.kept_eq_pending keeps ▸ advanced.read)

theorem Advanced.carried {s s' : Stream} {call : WriteCall} {lines : List (List Byte)}
    (advanced : Advanced s call s' lines) :
    s'.carried + s.tx.pending.length + s.accepted.length =
      s.carried + (s.tx.kept call.buf.length).length + s'.accepted.length := by
  have lengths := advanced.read.length_eq
  simp only [Stream.carried, advanced.handed, advanced.accepted, unlines_append,
    List.length_append] at lengths ⊢
  omega

theorem kept_length_le (s : Tx) (count : Nat) : (s.kept count).length ≤ s.pending.length := by
  unfold Tx.kept
  split
  · exact Nat.zero_le _
  · exact Nat.le_refl _

/-- Over a run the bytes accounted for never gain on the bytes accepted, and keep up with
    them only if every call kept what was pending. -/
theorem run_carried {s final : Stream} {calls : List WriteCall} (ready : s.tx.Ready)
    (faultless : ∀ call ∈ calls, call.fault = none) (returns : run writeCall s calls = .ok final) :
    final.carried + s.accepted.length ≤ s.carried + final.accepted.length ∧
      (s.carried + final.accepted.length ≤ final.carried + s.accepted.length →
        Along writeCall KeepsPending s calls) := by
  induction calls generalizing s with
  | nil =>
    cases returns
    exact ⟨Nat.le_refl _, fun _ => trivial⟩
  | cons call calls ih =>
    obtain ⟨next, steps, rest⟩ := run_cons_inv returns
    obtain ⟨lines, advanced⟩ := advanced_of_ok ready (faultless call List.mem_cons_self) steps
    obtain ⟨behind, along⟩ := ih advanced.ready
      (fun c member => faultless c (List.mem_cons_of_mem _ member)) rest
    have carried := advanced.carried
    -- what this call dropped, no later call can make up for
    have kept := kept_length_le s.tx call.buf.length
    refine ⟨by omega, fun level => (Along.cons_ok steps).mpr ⟨?_, along (by omega)⟩⟩
    exact keepsPending_of_kept (by omega)

theorem keepsPending_of_lines {memory : Memory} {start : Nat} {final : Stream}
    {calls : List WriteCall} (ready : (Stream.init memory start).tx.Ready)
    (faultless : ∀ call ∈ calls, call.fault = none)
    (returns : run writeCall (Stream.init memory start) calls = .ok final)
    (read : Lines newline final.accepted final.tx.handed final.tx.pending) :
    Along writeCall KeepsPending (Stream.init memory start) calls := by
  -- the lines and the rest are as long as the stream, so nothing has been dropped
  have lengths := read.length_eq
  refine (run_carried ready faultless returns).2 ?_
  simp only [Stream.carried, Stream.init_pending, ← lengths]
  simp [Stream.init, Tx.init, unlines]

theorem run_ends {s : Stream} {calls : List WriteCall} (ready : s.tx.Ready)
    (faultless : ∀ call ∈ calls, call.fault = none) {stuck : Stuck}
    (fails : run writeCall s calls = .error stuck) :
    stuck ≠ .noFuel ∧ ∃ call ∈ calls, ¬ Roomy call.alloc := by
  induction calls generalizing s with
  | nil => cases fails
  | cons call calls ih =>
    rcases writeCall_advances ready (faultless call List.mem_cons_self) with
      ⟨reason, stops, fuel, short⟩ | ⟨next, lines, steps, advanced⟩
    · simp only [run, stops] at fails
      cases fails
      exact ⟨fuel, call, List.mem_cons_self, short⟩
    · rw [run_cons_ok calls steps] at fails
      obtain ⟨fuel, short, member, poor⟩ := ih advanced.ready
        (fun c member => faultless c (List.mem_cons_of_mem _ member)) fails
      exact ⟨fuel, short, List.mem_cons_of_mem _ member, poor⟩

/-- Every run from the empty buffer whose user copies succeed ends (unless an skb is not
    there for one of its frames), and the lines handed to the decoder and the bytes pending
    are those of the accepted stream exactly when no call makes room with bytes pending. -/
theorem stream_kept_iff (memory : Memory) (start : Nat) (low : start + packetBufMax ≤ 2 ^ 64)
    (calls : List WriteCall) (faultless : ∀ call ∈ calls, call.fault = none) :
    (∃ stuck, run writeCall (Stream.init memory start) calls = .error stuck ∧ stuck ≠ .noFuel ∧
      ∃ call ∈ calls, ¬ Roomy call.alloc) ∨
    ∃ final, run writeCall (Stream.init memory start) calls = .ok final ∧
      (Lines newline final.accepted final.tx.handed final.tx.pending ↔
        Along writeCall KeepsPending (Stream.init memory start) calls) := by
  have ready : (Stream.init memory start).tx.Ready := Tx.Ready.init memory low
  cases returns : run writeCall (Stream.init memory start) calls with
  | error stuck => exact .inl ⟨stuck, rfl, run_ends ready faultless returns⟩
  | ok final =>
    refine .inr ⟨final, rfl, keepsPending_of_lines ready faultless returns, fun keeps => ?_⟩
    -- the invariant is that the lines so far and the bytes pending are those of the stream
    have both := keeps.and (along_of_forall fun call member _ => faultless call member)
    refine (run_invariant (fun s => s.tx.Ready ∧
      Lines newline s.accepted s.tx.handed s.tx.pending) ?_ ⟨ready, ?_⟩ both returns).2
    · rintro s call next ⟨ready, read⟩ ⟨keeps, faultless⟩ steps
      obtain ⟨lines, advanced⟩ := advanced_of_ok ready faultless steps
      exact ⟨advanced.ready, advanced.lines keeps read⟩
    · rw [Stream.init_pending]
      exact Lines.nil_of_not_mem List.not_mem_nil

def overflowingCalls (second : List Byte) : List WriteCall :=
  [{ buf := [0x61#8], fault := none, alloc := fun _ length => some (length + 2) },
   { buf := second, fault := none, alloc := fun _ length => some (length + 2) }]

/-- With a second call as long as the whole buffer, the first byte is accepted, and neither
    handed on nor pending in the end. -/
theorem first_byte_lost {second : List Byte} (long : second.length = packetBufMax - 1) :
    ∃ final, run writeCall (Stream.init (fun _ => 0) 0x10000) (overflowingCalls second) = .ok final ∧
      ¬ Lines newline final.accepted final.tx.handed final.tx.pending := by
  have ready : (Stream.init (fun _ => 0) 0x10000).tx.Ready := Tx.Ready.init _ (by decide)
  have faultless : ∀ call ∈ overflowingCalls second, call.fault = none := by simp [overflowingCalls]
  have roomy : ∀ call ∈ overflowingCalls second, Roomy call.alloc := by
    simp [overflowingCalls, Roomy]
  cases returns : run writeCall (Stream.init (fun _ => 0) 0x10000) (overflowingCalls second) with
  | error stuck =>
    obtain ⟨call, member, poor⟩ := (run_ends ready faultless returns).2
    exact absurd (roomy call member) poor
  | ok final =>
    refine ⟨final, rfl, fun read => ?_⟩
    have along := keepsPending_of_lines ready faultless returns read
    obtain ⟨next, steps, -⟩ := run_cons_inv returns
    obtain ⟨lines, advanced⟩ := advanced_of_ok ready rfl steps
    -- after the first call its byte is pending, so the second call must not make room
    have kept : (Stream.init (fun _ => 0) 0x10000).tx.kept 1 = [] := by
      have short := kept_length_le (Stream.init (fun _ => 0) 0x10000).tx 1
      rw [Stream.init_pending] at short
      exact List.eq_nil_of_length_eq_zero (Nat.le_zero.mp short)
    have first := advanced.read
    rw [Tx.accepted, List.length_singleton, kept, List.nil_append,
      List.take_of_length_le (by decide)] at first
    have pending := (first.unique (Lines.nil_of_not_mem (by decide))).2
    have length := advanced.ready.length_pending
    rw [pending, advanced.start] at length
    cases (along.2 next steps).1 with
    | inl empty =>
      rw [pending] at empty
      exact absurd empty (by decide)
    | inr fits =>
      have low := advanced.ready.startWrite
      rw [advanced.start] at low
      rw [Stream.init_txStartPtr] at low length
      rw [List.length_singleton] at length
      rw [Tx.Overflows, advanced.stop, Stream.init_txEndPtr, long, packetBufMax] at fits
      omega

theorem stream_loses_pending_byte :
    ∃ final, run writeCall (Stream.init (fun _ => 0) 0x10000)
        (overflowingCalls (List.replicate (packetBufMax - 1) 0x62#8)) = .ok final ∧
      ¬ Lines newline final.accepted final.tx.handed final.tx.pending :=
  first_byte_lost List.length_replicate

theorem stream_kept_sample :
    let calls : List WriteCall :=
      [{ buf := [0x30#8], fault := none, alloc := fun _ _ => some 100 },
       { buf := [0x41#8, 0x0a#8], fault := none, alloc := fun _ _ => some 100 }]
    (∃ stuck, run writeCall (Stream.init (fun _ => 0) 0x10000) calls = .error stuck ∧
      stuck ≠ .noFuel ∧ ∃ call ∈ calls, ¬ Roomy call.alloc) ∨
    ∃ final, run writeCall (Stream.init (fun _ => 0) 0x10000) calls = .ok final ∧
      (Lines newline final.accepted final.tx.handed final.tx.pending ↔
        Along writeCall KeepsPending (Stream.init (fun _ => 0) 0x10000) calls) :=
  stream_kept_iff (fun _ => 0) 0x10000 (by decide) _ (by simp)

end TestPrograms.Genpipe
