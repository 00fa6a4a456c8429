import TestPrograms.Genpipe.Stream

/-! # Several writers

All opens of the device write to one buffer, which neither an open nor a release touches.
While every process finds nothing pending in it but its own unfinished line, each line
comes from one process, and those of a process are the lines of its own text.
-/

namespace TestPrograms.Genpipe

open TestPrograms.Foundations
open TestPrograms.Linux

/-- What the processes do, one whole call after the other. -/
inductive Action (Proc : Type) where
  | opens (proc : Proc)
  | writes (proc : Proc) (call : WriteCall)
  | releases (proc : Proc)

/-- The device with the bytes it has accepted from each process. -/
structure Shared (Proc : Type) where
  tx : Tx
  accepted : Proc → List Byte

def Shared.init {Proc : Type} (memory : Memory) (start : Nat) : Shared Proc where
  tx := Tx.init memory start
  accepted := fun _ => []

section

variable {Proc : Type} [DecidableEq Proc]

/-- `genpipe_open` and `genpipe_release` print their names. -/
def act (s : Shared Proc) : Action Proc → Except Stuck (Shared Proc)
  | .opens _ => .ok s
  | .writes proc call =>
    match genpipeWrite call s.tx with
    | .error stuck => .error stuck
    | .ok (.ok copyLen, tx) =>
      .ok { tx, accepted := Function.update s.accepted proc (s.accepted proc ++ call.buf.take copyLen) }
    | .ok (.error _, tx) => .ok { s with tx }
  | .releases _ => .ok s

/-- A write that makes room finds nothing pending. -/
def KeepsLine (s : Shared Proc) : Action Proc → Prop
  | .writes _ call => s.tx.pending = [] ∨ ¬ s.tx.Overflows call.buf.length
  | _ => True

/-- A write that is accepted finds nothing pending but the unfinished line of its own process: one
    whose user copy faults is not, nor is one for which there is no room. -/
def OwnLine (s : Shared Proc) : Action Proc → Prop
  | .writes proc call =>
    Faults call.fault (s.tx.accepted call.buf).length ∨ s.tx.accepted call.buf = [] ∨
      ∃ lines, Lines newline (s.accepted proc) lines s.tx.pending
  | _ => True

def linesOf (proc : Proc) (taken : List (Proc × List Byte)) : List (List Byte) :=
  (taken.filter fun line => line.1 = proc).map Prod.snd

theorem linesOf_append_own (proc : Proc) (taken : List (Proc × List Byte)) (lines : List (List Byte)) :
    linesOf proc (taken ++ lines.map (Prod.mk proc)) = linesOf proc taken ++ lines := by
  rw [linesOf, List.filter_append, List.map_append, linesOf]
  congr 1
  induction lines with
  | nil => rfl
  | cons line lines ih => simpa using ih

theorem linesOf_append_other {proc other : Proc} (different : other ≠ proc)
    (taken : List (Proc × List Byte)) (lines : List (List Byte)) :
    linesOf proc (taken ++ lines.map (Prod.mk other)) = linesOf proc taken := by
  rw [linesOf, List.filter_append, List.map_append, linesOf]
  have none : (lines.map (Prod.mk other)).filter (fun line => line.1 = proc) = [] := by
    rw [List.filter_eq_nil_iff]
    intro line member
    obtain ⟨_, _, rfl⟩ := List.mem_map.mp member
    simpa using different
  rw [none, List.map_nil, List.append_nil]

/-- The lines sent so far are each one process's own, and what is pending is the unfinished
    line of the holder, all other texts being complete. -/
structure Unmixed (s : Shared Proc) (taken : List (Proc × List Byte)) (holder : Option Proc) : Prop where
  ready : s.tx.Ready
  built : s.tx.built = taken.map fun line => List.replicate 14 0 ++ frameOf line.2
  read : ∀ proc, Lines newline (s.accepted proc) (linesOf proc taken)
    (if holder = some proc then s.tx.pending else [])
  held : holder = none → s.tx.pending = []

theorem Unmixed.init (memory : Memory) {start : Nat} (low : start + packetBufMax ≤ 2 ^ 64) :
    Unmixed (Shared.init memory start : Shared Proc) [] none where
  ready := Tx.Ready.init memory low
  built := rfl
  read := fun _ => Lines.nil_of_not_mem List.not_mem_nil
  held := fun _ => Stream.init_pending memory start

theorem Unmixed.unfinished {s : Shared Proc} {taken : List (Proc × List Byte)} {holder : Option Proc}
    (unmixed : Unmixed s taken holder) : newline ∉ s.tx.pending := by
  cases holder with
  | none =>
    rw [unmixed.held rfl]
    exact List.not_mem_nil
  | some proc =>
    have rest := (unmixed.read proc).unfinished
    rwa [if_pos rfl] at rest

/-- An accepted call makes its process the holder. -/
theorem Unmixed.accept {s : Shared Proc} {taken : List (Proc × List Byte)} {holder : Option Proc}
    (unmixed : Unmixed s taken holder) {proc : Proc} {own : List (List Byte)}
    (mine : Lines newline (s.accepted proc) own s.tx.pending) {tx : Tx} (ready : tx.Ready)
    {more : List Byte} {lines : List (List Byte)}
    (built : tx.built = s.tx.built ++ lines.map fun line => List.replicate 14 0 ++ frameOf line)
    (read : Lines newline (s.tx.pending ++ more) lines tx.pending) :
    Unmixed { tx, accepted := Function.update s.accepted proc (s.accepted proc ++ more) }
      (taken ++ lines.map (Prod.mk proc)) (some proc) := by
  obtain ⟨rfl, rest⟩ := mine.unique (unmixed.read proc)
  refine ⟨ready, ?_, fun other => ?_, fun none => by cases none⟩
  · rw [built, unmixed.built, List.map_append, List.map_map]
    rfl
  · by_cases same : other = proc
    · subst same
      simp only [Function.update_self, if_true, linesOf_append_own]
      exact mine.append read
    · have whole := unmixed.read other
      -- another holder would have its line pending, which is not this process's
      have complete : (if holder = some other then s.tx.pending else []) = [] := by
        split
        · rename_i held
          rwa [held, if_neg (by simpa using same)] at rest
        · rfl
      rw [complete] at whole
      have different : ¬ some proc = some other := fun same' => same (Option.some.inj same').symm
      simp only [Function.update_of_ne same, different, if_false,
        linesOf_append_other (Ne.symm same)]
      exact whole

theorem act_unmixed {s : Shared Proc} {taken : List (Proc × List Byte)} {holder : Option Proc}
    (unmixed : Unmixed s taken holder) {action : Action Proc} (keeps : KeepsLine s action)
    (own : OwnLine s action) :
    (∃ stuck proc call, act s action = .error stuck ∧ stuck ≠ .noFuel ∧ action = .writes proc call ∧
      ¬ Roomy call.alloc) ∨
    ∃ next taken' holder', act s action = .ok next ∧ Unmixed next taken' holder' := by
  cases action with
  | opens proc => exact .inr ⟨s, taken, holder, rfl, unmixed⟩
  | releases proc => exact .inr ⟨s, taken, holder, rfl, unmixed⟩
  | writes proc call =>
    have kept : s.tx.kept call.buf.length = s.tx.pending := Tx.kept_eq_pending keeps
    by_cases faults : Faults call.fault (s.tx.accepted call.buf).length
    · have fails := genpipeWrite_eq unmixed.ready call
      rw [if_pos faults] at fails
      have ready := (genpipeWrite_ready unmixed.ready fails).1
      obtain ⟨pending, built⟩ := genpipeWrite_error unmixed.ready fails
      rw [kept] at pending
      refine .inr ⟨{ s with tx := s.tx.faulted call.buf call.fault }, taken, holder,
        by simp only [act, fails], ready, built.trans unmixed.built, ?_, ?_⟩
      · exact pending ▸ unmixed.read
      · exact pending ▸ unmixed.held
    · rcases genpipeWrite_spec unmixed.ready call faults with
        ⟨stuck, fails, fuel, poor⟩ | ⟨tx, lines, writes, moved, read⟩
      · exact .inl ⟨stuck, proc, call, by simp only [act, fails], fuel, rfl, poor⟩
      · rw [kept] at read
        have acts : act s (.writes proc call) = .ok {
            tx, accepted := Function.update s.accepted proc
              (s.accepted proc ++ s.tx.accepted call.buf) } := by
          simp only [act, writes, Tx.take_accepted]
        have built : tx.built = s.tx.built ++ lines.map fun line => List.replicate 14 0 ++ frameOf line :=
          moved.built
        rcases own.resolve_left faults with nothing | ⟨lines', mine⟩
        · -- no byte came in, so no line ended
          rw [nothing, List.append_nil] at read
          obtain ⟨rfl, still⟩ := read.unique (Lines.nil_of_not_mem unmixed.unfinished)
          rw [nothing, List.append_nil, Function.update_eq_self] at acts
          refine .inr ⟨_, taken, holder, acts, moved.ready, ?_, still ▸ unmixed.read,
            still ▸ unmixed.held⟩
          rw [built, unmixed.built, List.map_nil, List.append_nil]
        · exact .inr ⟨_, _, _, acts, unmixed.accept mine moved.ready built read⟩

theorem run_unmixed {s : Shared Proc} {taken : List (Proc × List Byte)} {holder : Option Proc}
    (unmixed : Unmixed s taken holder) {actions : List (Action Proc)}
    (keeps : Along act KeepsLine s actions) (own : Along act OwnLine s actions) :
    (∃ stuck proc call, run act s actions = .error stuck ∧ stuck ≠ .noFuel ∧
      .writes proc call ∈ actions ∧ ¬ Roomy call.alloc) ∨
    ∃ final taken' holder', run act s actions = .ok final ∧ Unmixed final taken' holder' := by
  induction actions generalizing s taken holder with
  | nil => exact .inr ⟨s, taken, holder, rfl, unmixed⟩
  | cons action actions ih =>
    rcases act_unmixed unmixed keeps.1 own.1 with
      ⟨stuck, proc, call, fails, fuel, rfl, poor⟩ | ⟨next, taken', holder', acts, unmixed'⟩
    · exact .inl ⟨stuck, proc, call, by simp only [run, fails], fuel, List.mem_cons_self, poor⟩
    · rw [run_cons_ok actions acts]
      rcases ih unmixed' (keeps.2 next acts) (own.2 next acts) with
        ⟨stuck, proc, call, fails, fuel, member, poor⟩ | returns
      · exact .inl ⟨stuck, proc, call, fails, fuel, List.mem_cons_of_mem _ member, poor⟩
      · exact .inr returns

/-- However the calls of the processes are mixed, while none makes room with bytes pending and
    none is accepted behind another's unfinished line, the frames sent are those of lines of
    one process each, and for every process the lines of its own text in their order. -/
theorem writers_unmixed {ethTypeTrans : List Byte → List Byte} (pulls : PullsHeader ethTypeTrans)
    (memory : Memory) (start : Nat) (low : start + packetBufMax ≤ 2 ^ 64) (actions : List (Action Proc))
    (keeps : Along act KeepsLine (Shared.init memory start) actions)
    (own : Along act OwnLine (Shared.init memory start) actions) :
    (∃ stuck proc call, run act (Shared.init memory start) actions = .error stuck ∧
      stuck ≠ .noFuel ∧ .writes proc call ∈ actions ∧ ¬ Roomy call.alloc) ∨
    ∃ final taken, run act (Shared.init memory start) actions = .ok final ∧
      final.tx.built = taken.map (fun line : Proc × List Byte =>
        List.replicate 14 0 ++ frameOf line.2) ∧
      final.tx.sent ethTypeTrans = taken.map (fun line : Proc × List Byte => frameOf line.2) ∧
      ∀ proc, ∃ rest, Lines newline (final.accepted proc) (linesOf proc taken) rest := by
  rcases run_unmixed (Unmixed.init memory low) keeps own with
    stops | ⟨final, taken, holder, returns, unmixed⟩
  · exact .inl stops
  · refine .inr ⟨final, taken, returns, unmixed.built, ?_, fun proc => ⟨_, unmixed.read proc⟩⟩
    refine Tx.sent_of_built (s := Tx.init memory start) pulls ?_
    rw [unmixed.built, List.map_map]
    rfl

end

/-- One process writes `a` and closes the device, another opens it and writes `b` with a newline. -/
def strangers : List (Action Bool) :=
  [.opens false,
   .writes false { buf := [0x61#8], fault := none, alloc := fun _ length => some (length + 2) },
   .releases false,
   .opens true,
   .writes true { buf := [0x62#8, newline], fault := none, alloc := fun _ length => some (length + 2) }]

/-- The frame sent is the byte `ab`, which no line of either spells. -/
theorem strangers_mixed :
    ∃ final, run act (Shared.init (fun _ => 0) 0x10000) strangers = .ok final ∧
      final.tx.sent pullHeader = [[0xab#8]] ∧
      ∀ proc lines rest, Lines newline (final.accepted proc) lines rest →
        ∀ line ∈ lines, frameOf line ≠ [0xab#8] := by
  have outcome : (run act (Shared.init (fun _ => 0) 0x10000) strangers).map
      (fun s => (s.tx.sent pullHeader, s.accepted false, s.accepted true)) =
        .ok ([[0xab#8]], [0x61#8], [0x62#8, newline]) := by
    decide +kernel
  cases returns : run act (Shared.init (fun _ => 0) 0x10000) strangers with
  | error stuck =>
    rw [returns] at outcome
    cases outcome
  | ok final =>
    rw [returns] at outcome
    simp only [Except.map, Except.ok.injEq, Prod.mk.injEq] at outcome
    obtain ⟨sent, first, second⟩ := outcome
    refine ⟨final, rfl, sent, fun proc lines rest read line member => ?_⟩
    cases proc with
    | false =>
      rw [first] at read
      rw [(read.unique (Lines.nil_of_not_mem (by decide))).1] at member
      cases member
    | true =>
      rw [second] at read
      have reading : Lines newline [0x62#8, newline] [[0x62#8]] [] :=
        Lines.cons (by decide : newline ∉ [0x62#8]) (Lines.nil_of_not_mem List.not_mem_nil)
      rw [(read.unique reading).1, List.mem_singleton] at member
      rw [member]
      decide

def byteLine (digit : Byte) : WriteCall where
  buf := [digit, digit, newline]
  fault := none
  alloc _ length := some (length + 2)

theorem writers_unmixed_sample :
    let actions : List (Action Bool) :=
      [.opens false, .opens true, .writes false (byteLine 0x31#8), .writes true (byteLine 0x32#8)]
    ∃ final taken, run act (Shared.init (fun _ => 0) 0x10000) actions = .ok final ∧
      final.tx.built = taken.map (fun line : Bool × List Byte =>
        List.replicate 14 0 ++ frameOf line.2) ∧
      final.tx.sent pullHeader = taken.map (fun line : Bool × List Byte => frameOf line.2) ∧
      ∀ proc, ∃ rest, Lines newline (final.accepted proc) (linesOf proc taken) rest := by
  intro actions
  let s : Shared Bool := Shared.init (fun _ => 0) 0x10000
  have empty : s.tx.pending = [] := Stream.init_pending (fun _ => 0) 0x10000
  -- behind the first line nothing is pending, and the other process has written nothing
  have first : (act s (.writes false (byteLine 0x31#8))).map
      (fun s => (s.tx.pending, s.accepted true)) = .ok ([], []) := by
    decide +kernel
  have behind {next : Shared Bool} (acts : act s (.writes false (byteLine 0x31#8)) = .ok next) :
      next.tx.pending = [] ∧ next.accepted true = [] := by
    rw [acts] at first
    exact Prod.mk.inj (Except.ok.inj first)
  refine (writers_unmixed pullHeader_pulls (fun _ => 0) 0x10000 (by decide) actions ?_ ?_).resolve_left ?_
  · refine ⟨trivial, fun _ acts => ?_⟩
    cases acts
    refine ⟨trivial, fun _ acts => ?_⟩
    cases acts
    refine ⟨.inl empty, fun next acts => ?_⟩
    exact ⟨.inl (behind acts).1, fun _ _ => trivial⟩
  · refine ⟨trivial, fun _ acts => ?_⟩
    cases acts
    refine ⟨trivial, fun _ acts => ?_⟩
    cases acts
    refine ⟨.inr (.inr ⟨[], empty ▸ Lines.nil_of_not_mem List.not_mem_nil⟩), fun next acts => ?_⟩
    obtain ⟨pending, accepted⟩ := behind acts
    refine ⟨.inr (.inr ⟨[], ?_⟩), fun _ _ => trivial⟩
    rw [pending, accepted]
    exact Lines.nil_of_not_mem List.not_mem_nil
  · rintro ⟨_, _, call, _, _, member, poor⟩
    have roomy : call.alloc = fun _ length => some (length + 2) := by
      simp only [actions, List.mem_cons, reduceCtorEq, Action.writes.injEq, List.not_mem_nil, or_false,
        false_or] at member
      rcases member with ⟨-, rfl⟩ | ⟨-, rfl⟩ <;> rfl
    exact poor fun _ length => ⟨length + 2, by rw [roomy], Nat.le_refl _⟩

end TestPrograms.Genpipe
