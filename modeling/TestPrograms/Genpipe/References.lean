import TestPrograms.Foundations.Runs
import TestPrograms.Genpipe.Receive

/-! # References to packets

A receive handler is given one reference to its packet.  Its events are the operations of the
handler with the reads of the packet type between them, and each leaves the reference counts as
the next one finds them.
-/

namespace TestPrograms.Genpipe

open TestPrograms.Foundations

inductive Event where
  | op (op : Op)
  | readPktType (skb : Skb)
  deriving DecidableEq, Repr

/-- What `skb_share_check` does: it returns the skb itself, or drops the reference to it and
    returns a clone or NULL. -/
inductive Sharing where
  | same
  | clone (addr : Nat)
  | null
  deriving DecidableEq, Repr

def Sharing.result (skb : Skb) : Sharing → Option Skb
  | .same => some skb
  | .clone addr => some { skb with addr }
  | .null => none

/-! ## The handlers -/

inductive Handler where
  | arprcv
  | iprcv
  | ipv6rcv
  | nop
  | packRcv
  deriving DecidableEq, Repr

section

variable (packDev : Nat) (shared : Option Skb)

/-- From the test of the packet type on. -/
def countThenDrop (skb : Skb) : List Op :=
  if skb.pktType = packetOutgoing then dropSkb shared skb else .count :: dropSkb shared skb

/-- The handler of `genpipe_pack`, which the module registers nowhere. -/
def genpipePackRcv (packet : Packet) (_ : Addr) : List Op := countThenDrop shared packet.skb

/-- The events of a handler, of which two read the packet type. -/
def Handler.trace (symbols : Symbols) (packet : Packet) (pt : Addr) : Handler → List Event
  | .arprcv => (genpipeArprcv packDev shared symbols packet pt).map .op
  | .iprcv =>
    if packet.dev ≠ packDev then [.op (.call symbols.iprcv packet pt)]
    else .readPktType packet.skb :: (countThenDrop shared packet.skb).map .op
  | .ipv6rcv => (genpipeIpv6rcv packDev shared symbols packet pt).map .op
  | .nop => (genpipeNop shared packet pt).map .op
  | .packRcv => .readPktType packet.skb :: (genpipePackRcv shared packet pt).map .op

/-- The handler that packets of other devices are passed on to. -/
def Handler.original (symbols : Symbols) : Handler → Option Addr
  | .arprcv => some symbols.arprcv
  | .iprcv => some symbols.iprcv
  | .ipv6rcv => some symbols.ipv6rcv
  | .nop | .packRcv => none

def Event.op? : Event → Option Op
  | .op operation => some operation
  | .readPktType _ => none

theorem filterMap_op? (ops : List Op) : (ops.map Event.op).filterMap Event.op? = ops := by
  induction ops with
  | nil => rfl
  | cons operation ops ih => rw [List.map_cons, List.filterMap_cons, Event.op?, ih]

/-- Without the reads of the packet type the events of `genpipe_iprcv` are its operations. -/
theorem iprcv_trace_ops (symbols : Symbols) (packet : Packet) (pt : Addr) :
    (Handler.trace packDev shared symbols packet pt .iprcv).filterMap Event.op? =
      genpipeIprcv packDev shared symbols packet pt := by
  simp only [Handler.trace, genpipeIprcv]
  split
  · rfl
  · rw [List.filterMap_cons, Event.op?, filterMap_op?, countThenDrop]

end

/-! ## Reference counts -/

/-- A reference is dropped that is not there. -/
inductive Misuse where
  | released
  deriving DecidableEq, Repr

def release (refs : Nat → Nat) (skb : Skb) : Except Misuse (Nat → Nat) :=
  if refs skb.addr = 0 then .error .released
  else .ok (Function.update refs skb.addr (refs skb.addr - 1))

def refStep (sharing : Sharing) (refs : Nat → Nat) : Event → Except Misuse (Nat → Nat)
  | .op (.skbShareCheck skb) =>
    match sharing with
    | .same => .ok refs
    | .clone addr => (release refs skb).map fun refs => Function.update refs addr 1
    | .null => release refs skb
  | .op (.kfreeSkb skb) => release refs skb
  | _ => .ok refs

/-- The skb that an event looks into. -/
def Event.reads : Event → Option Skb
  | .op (.skbShareCheck skb) | .op (.kfreeSkb skb) | .op (.readLen skb) | .readPktType skb => some skb
  | _ => none

/-- Every skb is read while there is a reference to it. -/
def NoLateRead (sharing : Sharing) : (Nat → Nat) → List Event → Prop :=
  Along (refStep sharing) fun refs event => ∀ skb ∈ event.reads, 0 < refs skb.addr

/-- In the end there is one reference less to the skb, and nothing else has changed. -/
def ConsumesOne (sharing : Sharing) (refs : Nat → Nat) (skb : Skb) (trace : List Event) : Prop :=
  run (refStep sharing) refs trace = .ok (Function.update refs skb.addr (refs skb.addr - 1))

def Forwards (original : Option Addr) (packet : Packet) (pt : Addr) (trace : List Event) : Prop :=
  ∃ func ∈ original, trace = [.op (.call func packet pt)]

section

variable {sharing : Sharing} {refs : Nat → Nat} {skb : Skb} {trace : List Event}

theorem release_ok (held : 0 < refs skb.addr) :
    release refs skb = .ok (Function.update refs skb.addr (refs skb.addr - 1)) :=
  if_neg (Nat.ne_of_gt held)

/-- Reading the packet type and counting it leave the references alone. -/
theorem consumesOne_cons {event : Event} (quiet : refStep sharing refs event = .ok refs) :
    ConsumesOne sharing refs skb (event :: trace) ↔ ConsumesOne sharing refs skb trace := by
  rw [ConsumesOne, run_cons_ok trace quiet, ConsumesOne]

theorem noLateRead_cons {event : Event} (quiet : refStep sharing refs event = .ok refs)
    (held : ∀ skb ∈ event.reads, 0 < refs skb.addr) :
    NoLateRead sharing refs (event :: trace) ↔ NoLateRead sharing refs trace := by
  rw [NoLateRead, Along.cons_ok quiet]
  exact and_iff_right held

/-! ## Dropping an skb -/

variable (held : 0 < refs skb.addr) (fresh : ∀ addr, sharing = .clone addr → refs addr = 0)

include held fresh

theorem refStep_clone {addr : Nat} (clones : sharing = .clone addr) :
    refStep sharing refs (.op (.skbShareCheck skb)) =
        .ok (Function.update (Function.update refs skb.addr (refs skb.addr - 1)) addr 1) ∧
      refStep sharing (Function.update (Function.update refs skb.addr (refs skb.addr - 1)) addr 1)
          (.op (.kfreeSkb { skb with addr })) =
        .ok (Function.update refs skb.addr (refs skb.addr - 1)) := by
  subst clones
  have none := fresh addr rfl
  have other : addr ≠ skb.addr := fun same => by rw [same] at none; omega
  constructor
  · rw [refStep, release_ok held]
    rfl
  · have one : 0 < Function.update (Function.update refs skb.addr (refs skb.addr - 1)) addr 1 addr := by
      rw [Function.update_self]
      exact Nat.one_pos
    have zero : Function.update refs skb.addr (refs skb.addr - 1) addr = 0 := by
      rw [Function.update_of_ne other, none]
    rw [refStep, release_ok one]
    simp only [Function.update_self, Nat.sub_self, Function.update_idem]
    rw [← zero, Function.update_eq_self]

theorem dropSkb_consumesOne :
    ConsumesOne sharing refs skb ((dropSkb (sharing.result skb) skb).map .op) := by
  cases sharing with
  | null =>
    simp only [dropSkb, Sharing.result, List.map_cons, List.map_nil, ConsumesOne, run, refStep,
      release_ok held]
  | same =>
    simp only [dropSkb, Sharing.result, List.map_cons, List.map_nil, ConsumesOne, run, refStep,
      release_ok held]
  | clone addr =>
    obtain ⟨shares, frees⟩ := refStep_clone held fresh rfl
    simp only [dropSkb, Sharing.result, List.map_cons, List.map_nil, ConsumesOne]
    rw [run_cons_ok _ shares, run_cons_ok _ frees]
    rfl

theorem dropSkb_noLateRead_iff :
    NoLateRead sharing refs ((dropSkb (sharing.result skb) skb).map .op) ↔
      sharing = .null ∨ sharing = .same ∧ 2 ≤ refs skb.addr := by
  cases sharing with
  | null =>
    simp only [dropSkb, Sharing.result, List.map_cons, List.map_nil, NoLateRead, Along, Event.reads,
      Option.mem_some_iff, forall_eq', held, implies_true, and_self, true_or]
  | same =>
    have shares : refStep .same refs (.op (.skbShareCheck skb)) = .ok refs := rfl
    have frees : refStep .same refs (.op (.kfreeSkb skb)) =
        .ok (Function.update refs skb.addr (refs skb.addr - 1)) := release_ok held
    simp only [dropSkb, Sharing.result, List.map_cons, List.map_nil, NoLateRead]
    rw [Along.cons_ok shares, Along.cons_ok frees]
    simp only [Along, Event.reads, Option.mem_some_iff, forall_eq', held, Function.update_self,
      implies_true, and_true, true_and, reduceCtorEq, false_or]
    omega
  | clone addr =>
    obtain ⟨shares, frees⟩ := refStep_clone held fresh rfl
    have none := fresh addr rfl
    have other : addr ≠ skb.addr := fun same => by rw [same] at none; omega
    simp only [dropSkb, Sharing.result, List.map_cons, List.map_nil, NoLateRead]
    rw [Along.cons_ok shares, Along.cons_ok frees]
    -- the length is read from the clone after its only reference
    simp only [Along, Event.reads, Option.mem_some_iff, forall_eq', Function.update_of_ne other, none,
      Nat.lt_irrefl, false_and, and_false, reduceCtorEq, or_self]

end

/-! ## Every handler, packet and outcome -/

section

variable {packDev : Nat} {symbols : Symbols} {packet : Packet} {sharing : Sharing} {refs : Nat → Nat}

/-- The handler is one of those that pass packets on, and the packet is of another device. -/
def Handler.PassesOn (packDev : Nat) (symbols : Symbols) (packet : Packet) (h : Handler) : Prop :=
  (h.original symbols).isSome ∧ packet.dev ≠ packDev

/-- The events before the skb is dropped. -/
def Quiet (skb : Skb) (event : Event) : Prop := event = .readPktType skb ∨ event = .op .count

theorem Quiet.step {event : Event} (quiet : Quiet packet.skb event) : refStep sharing refs event = .ok refs := by
  rcases quiet with rfl | rfl <;> rfl

theorem Quiet.held {event : Event} (quiet : Quiet packet.skb event) (held : 0 < refs packet.skb.addr) :
    ∀ skb ∈ event.reads, 0 < refs skb.addr := by
  rcases quiet with rfl | rfl
  · simpa [Event.reads] using held
  · simp [Event.reads]

theorem quiet_consumesOne_iff {quiet : List Event} (all : ∀ event ∈ quiet, Quiet packet.skb event)
    (trace : List Event) :
    ConsumesOne sharing refs packet.skb (quiet ++ trace) ↔
      ConsumesOne sharing refs packet.skb trace := by
  induction quiet with
  | nil => rfl
  | cons event quiet ih =>
    rw [List.cons_append, consumesOne_cons (all event List.mem_cons_self).step,
      ih fun later member => all later (List.mem_cons_of_mem _ member)]

theorem quiet_noLateRead_iff {quiet : List Event} (all : ∀ event ∈ quiet, Quiet packet.skb event)
    (held : 0 < refs packet.skb.addr) (trace : List Event) :
    NoLateRead sharing refs (quiet ++ trace) ↔ NoLateRead sharing refs trace := by
  induction quiet with
  | nil => rfl
  | cons event quiet ih =>
    have first := all event List.mem_cons_self
    rw [List.cons_append, noLateRead_cons first.step (first.held held),
      ih fun later member => all later (List.mem_cons_of_mem _ member)]

theorem countThenDrop_eq (shared : Option Skb) (skb : Skb) :
    ∃ quiet, (countThenDrop shared skb).map Event.op = quiet ++ (dropSkb shared skb).map .op ∧
      ∀ event ∈ quiet, Quiet skb event := by
  unfold countThenDrop
  split
  · exact ⟨[], rfl, List.forall_mem_nil _⟩
  · exact ⟨[.op .count], rfl, by simp [Quiet]⟩

/-- A handler passes the packet on or, after reads and counts, drops it. -/
theorem Handler.trace_cases (packDev : Nat) (shared : Option Skb) (symbols : Symbols) (packet : Packet)
    (pt : Addr) (h : Handler) :
    (h.PassesOn packDev symbols packet ∧
      Forwards (h.original symbols) packet pt (h.trace packDev shared symbols packet pt)) ∨
    (¬ h.PassesOn packDev symbols packet ∧ ∃ quiet,
      h.trace packDev shared symbols packet pt = quiet ++ (dropSkb shared packet.skb).map .op ∧
      ∀ event ∈ quiet, Quiet packet.skb event) := by
  obtain ⟨quiet, drops, all⟩ := countThenDrop_eq shared packet.skb
  have read : ∀ event ∈ .readPktType packet.skb :: quiet, Quiet packet.skb event :=
    List.forall_mem_cons.mpr ⟨.inl rfl, all⟩
  have none : ∀ event ∈ ([] : List Event), Quiet packet.skb event := List.forall_mem_nil _
  by_cases other : packet.dev ≠ packDev
  · cases h with
    | arprcv => exact .inl ⟨⟨rfl, other⟩, _, rfl, by simp [Handler.trace, genpipeArprcv, dropOwn, other]⟩
    | iprcv => exact .inl ⟨⟨rfl, other⟩, _, rfl, by simp [Handler.trace, other]⟩
    | ipv6rcv => exact .inl ⟨⟨rfl, other⟩, _, rfl, by simp [Handler.trace, genpipeIpv6rcv, dropOwn, other]⟩
    | nop => exact .inr ⟨fun passes => absurd passes.1 Bool.false_ne_true, [], rfl, none⟩
    | packRcv =>
      refine .inr ⟨fun passes => absurd passes.1 Bool.false_ne_true, _, ?_, read⟩
      simp only [Handler.trace, genpipePackRcv, drops, List.cons_append]
  · have own : packet.dev = packDev := not_not.mp other
    cases h with
    | arprcv =>
      refine .inr ⟨fun passes => other passes.2, [], ?_, none⟩
      simp [Handler.trace, genpipeArprcv, dropOwn, own]
    | iprcv =>
      refine .inr ⟨fun passes => other passes.2, _, ?_, read⟩
      simp only [Handler.trace, own, ne_eq, not_true_eq_false, if_false, drops, List.cons_append]
    | ipv6rcv =>
      refine .inr ⟨fun passes => other passes.2, [], ?_, none⟩
      simp [Handler.trace, genpipeIpv6rcv, dropOwn, own]
    | nop => exact .inr ⟨fun passes => absurd passes.1 Bool.false_ne_true, [], rfl, none⟩
    | packRcv =>
      refine .inr ⟨fun passes => absurd passes.1 Bool.false_ne_true, _, ?_, read⟩
      simp only [Handler.trace, genpipePackRcv, drops, List.cons_append]

/-- A handler passes the packet on untouched or consumes its one reference, and looks at no skb
    after the last reference to it, exactly if it passes the packet on, or the share check
    returns NULL, or it returns the same skb and someone else has a reference to it. -/
theorem references_iff (h : Handler) (pt : Addr) (held : 0 < refs packet.skb.addr)
    (fresh : ∀ addr, sharing = .clone addr → refs addr = 0) :
    let trace := h.trace packDev (sharing.result packet.skb) symbols packet pt
    ((Forwards (h.original symbols) packet pt trace ∨ ConsumesOne sharing refs packet.skb trace) ∧
        NoLateRead sharing refs trace) ↔
      h.PassesOn packDev symbols packet ∨ sharing = .null ∨
        sharing = .same ∧ 2 ≤ refs packet.skb.addr := by
  intro trace
  rcases h.trace_cases packDev (sharing.result packet.skb) symbols packet pt with
    ⟨passes, forwards⟩ | ⟨drops, quiet, shape, all⟩
  · have untouched : NoLateRead sharing refs trace := by
      obtain ⟨func, _, only⟩ := forwards
      simp [trace, only, NoLateRead, Along, Event.reads]
    exact ⟨fun _ => .inl passes, fun _ => ⟨.inl forwards, untouched⟩⟩
  · have consumes : ConsumesOne sharing refs packet.skb trace := by
      simp only [trace, shape]
      exact (quiet_consumesOne_iff all _).mpr (dropSkb_consumesOne held fresh)
    have late := (quiet_noLateRead_iff all held _).trans (dropSkb_noLateRead_iff held fresh)
    rw [← shape] at late
    rw [← late]
    exact ⟨fun both => .inr both.2, fun either => ⟨.inr consumes, either.resolve_left drops⟩⟩

end

def onlyReference (skb : Skb) : Nat → Nat := Function.update (fun _ => 0) skb.addr 1

/-- `genpipe_nop` with the only reference to a packet: `skb->len` is read after the free. -/
theorem nop_reads_freed :
    let skb : Skb := { addr := 0xffff880030000000, pktType := 0 }
    let packet : Packet := { skb, dev := 0xffff880010100000, dev2 := 0xffff880010100000 }
    let trace := Handler.nop.trace 0xffff880010200000 (Sharing.same.result skb) sampleSymbols packet 1#64
    trace = [.op (.skbShareCheck skb), .op (.kfreeSkb skb), .op (.readLen skb)] ∧
      ¬ NoLateRead .same (onlyReference skb) trace := by
  intro skb packet trace
  have held : 0 < onlyReference skb skb.addr := by decide
  have same : ∀ addr, Sharing.same = .clone addr → onlyReference skb addr = 0 := nofun
  refine ⟨rfl, fun early => ?_⟩
  rcases (dropSkb_noLateRead_iff held same).mp early with none | ⟨-, shared⟩
  · cases none
  · exact absurd shared (by decide)

/-- `genpipe_iprcv` with a packet that a socket holds, too, and that is not cloned. -/
theorem references_sample :
    let skb : Skb := { addr := 0xffff880030000000, pktType := 0 }
    let packet : Packet := { skb, dev := 0xffff880010100000, dev2 := 0xffff880010100000 }
    let refs := Function.update (onlyReference skb) skb.addr 2
    let trace := Handler.iprcv.trace packet.dev (Sharing.same.result skb) sampleSymbols packet 1#64
    (Forwards (Handler.iprcv.original sampleSymbols) packet 1#64 trace ∨
      ConsumesOne .same refs skb trace) ∧ NoLateRead .same refs trace := by
  intro skb packet refs trace
  have same : ∀ addr, Sharing.same = .clone addr → refs addr = 0 := nofun
  exact (references_iff .iprcv 1#64 (by decide) same).mpr (.inr (.inr ⟨rfl, by decide⟩))

end TestPrograms.Genpipe
