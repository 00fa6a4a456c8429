import TestPrograms.Devmem.Pmem
import TestPrograms.Foundations.SaveRestore

/-! # Calls of several processes

All calls go through one window and one entry, and nothing keeps the steps of one call
together.  Whether every copy goes to its own page depends on the order of the steps alone.
-/

namespace TestPrograms.Devmem

open TestPrograms.Foundations
open TestPrograms.Foundations.Memory

/-- Memory, and of each call how far it is, `pte`, `pte_save` and what its user got. -/
structure Interleaved where
  memory : Memory
  phase : Nat → Phase
  pte : Nat → Option Nat
  pteSave : Nat → BitVec 64
  user : Nat → List Byte

def Interleaved.start (memory : Memory) : Interleaved where
  memory
  phase _ := .idle
  pte _ := none
  pteSave _ := 0#64
  user _ := []

def PmemCall.entry (save : BitVec 64) : PmemCall → BitVec 64
  | .read filp _ => windowEntry filp.fPos save
  | .write filp _ => windowEntry filp.fPos save ||| pageRw

/-- The next of the four steps of call `i`. -/
def interleave (k : Kernel) (calls : Nat → PmemCall) (s : Interleaved) (i : Nat) :
    Except Oops Interleaved :=
  match s.phase i with
  | .idle =>
    let pte := k.getPte s.memory k.pagedBuf
    let pteSave := match pte with
      | some pte => pteVal s.memory pte
      | none => s.pteSave i
    .ok { s with
      pte := Function.update s.pte i pte
      pteSave := Function.update s.pteSave i pteSave
      phase := Function.update s.phase i .saved }
  | .saved =>
    let memory := match s.pte i with
      | some pte => setPte s.memory pte ((calls i).entry (s.pteSave i))
      | none => s.memory
    .ok { s with memory, phase := Function.update s.phase i .installed }
  | .installed =>
    let offset := ((calls i).filp.fPos &&& 0xfff#64).toNat
    let copyLen := copyLen (calls i).filp.fPos (calls i).count
    match calls i with
    | .read .. =>
      .ok { s with
        user := Function.update s.user i (k.loadWindow s.memory offset copyLen)
        phase := Function.update s.phase i .used }
    | .write _ buf =>
      .ok { s with
        memory := k.storeWindow s.memory offset (buf.take copyLen)
        phase := Function.update s.phase i .used }
  | .used =>
    let memory := match s.pte i with
      | some pte => setPte s.memory pte (s.pteSave i)
      | none => s.memory
    .ok { s with memory, phase := Function.update s.phase i .restored }
  | .restored => .ok s

/-- If the next step of `i` is its copy and moves a byte, the window shows its own page. -/
def OwnPage (k : Kernel) (calls : Nat → PmemCall) (s : Interleaved) (i : Nat) : Prop :=
  s.phase i = .installed → (calls i).Moves →
    frame (pteVal s.memory k.pagedPte) = (calls i).frame

/-- Every copy goes to its own page and, when all calls have ended, the entry is as at first. -/
structure KeepsApart (k : Kernel) (calls : Nat → PmemCall) (memory : Memory) (schedule : List Nat) :
    Prop where
  own : Along (interleave k calls) (OwnPage k calls) (Interleaved.start memory) schedule
  restored : ∀ final, run (interleave k calls) (Interleaved.start memory) schedule = .ok final →
    (∀ i ∈ schedule, final.phase i = .restored) →
    pteVal final.memory k.pagedPte = pteVal memory k.pagedPte

/-- The transfer does not touch the tables that lead to the entry. -/
def PmemCall.SparesTables (words : Set Nat) (call : PmemCall) : Prop :=
  ∀ a ∈ words, a < call.start ∨ call.start + copyLen call.filp.fPos call.count ≤ a

/-- The writes among the calls of a schedule touch neither the entry nor the tables. -/
def SparesWalk (k : Kernel) (words : Set Nat) (calls : Nat → PmemCall) (schedule : List Nat) : Prop :=
  ∀ i ∈ schedule, (calls i).writes → (calls i).Spares k ∧ (calls i).SparesTables words

/-! ## Values and owners -/

section

variable {k : Kernel} {calls : Nat → PmemCall} {words : Set Nat} {memory : Memory}

/-- What an entry is worth that belongs to no call or to some call: a present one in any case. -/
def Stands (calls : Nat → PmemCall) (initial entry : BitVec 64) (owner : Option Nat) : Prop :=
  present entry ∧ match owner with
    | none => entry = initial
    | some i => frame entry = (calls i).frame

/-- The calls are as far as on names, entry and saved values are worth what they are there, and
    the tables are as they were. -/
structure Follows (k : Kernel) (calls : Nat → PmemCall) (words : Set Nat) (memory : Memory)
    (t : Shared Nat (Option Nat)) (s : Interleaved) : Prop where
  phase : s.phase = t.phase
  tables : ∀ a ∈ words, s.memory a = memory a
  entry : Stands calls (pteVal memory k.pagedPte) (pteVal s.memory k.pagedPte) t.cell
  kept : ∀ i, t.phase i ≠ .idle → s.pte i = some k.pagedPte ∧
    Stands calls (pteVal memory k.pagedPte) (s.pteSave i) (t.kept i)

theorem PmemCall.frame_entry (call : PmemCall) (save : BitVec 64) :
    Devmem.frame (call.entry save) = call.frame := by
  cases call <;> simp [PmemCall.entry, PmemCall.frame, PmemCall.filp]

theorem windowEntry_present (target save : BitVec 64) :
    present (windowEntry target save) = present save := by
  simp [present, windowEntry]

/-- An entry that a call installs is present where the saved one was. -/
theorem PmemCall.entry_present (call : PmemCall) {save : BitVec 64} (there : present save) :
    present (call.entry save) := by
  cases call with
  | read filp count => rwa [PmemCall.entry, windowEntry_present]
  | write filp buf =>
    rw [PmemCall.entry, present, BitVec.getLsbD_or, ← present, windowEntry_present, there]
    rfl

theorem follows_start (leads : k.Leads words memory) (calls : Nat → PmemCall) :
    Follows k calls words memory (Shared.init none) (Interleaved.start memory) :=
  ⟨rfl, fun _ _ => rfl, ⟨leads.there, rfl⟩, fun _ begun => absurd rfl begun⟩

theorem Kernel.Leads.setPte (leads : k.Leads words memory) {other : Memory}
    (tables : ∀ a ∈ words, other a = memory a) (entry : BitVec 64) :
    ∀ a ∈ words, setPte other k.pagedPte entry a = memory a := fun a member => by
  rw [setPte_frame _ _ _ _ (leads.apart a member), tables a member]

/-- A write to its own page that touches neither entry nor tables leaves both as they are. -/
theorem PmemCall.kept_of_spares {filp : File} {buf : List Byte} {other : Memory}
    (spares : (PmemCall.write filp buf).Spares k)
    (sparesTables : (PmemCall.write filp buf).SparesTables words)
    (shown : Devmem.frame (pteVal other k.pagedPte) = Devmem.frame filp.fPos) :
    let stored := k.storeWindow other (filp.fPos &&& 0xfff#64).toNat
      (buf.take (copyLen filp.fPos buf.length))
    pteVal stored k.pagedPte = pteVal other k.pagedPte ∧ ∀ a ∈ words, stored a = other a := by
  refine ⟨spares.kept shown, fun a member => ?_⟩
  have length := length_take_copyLen filp.fPos buf
  have place : k.windowAddr other (filp.fPos &&& 0xfff#64).toNat = (PmemCall.write filp buf).start := by
    rw [Kernel.windowAddr, shown, toNat_and_lowMask]
    rfl
  have away := sparesTables a member
  rw [k.storeWindow_eq_of_apart _ _ _ (by rw [length, place]; exact spares), place]
  exact storeBytes_frame _ _ _ _ (by rwa [length])

/-- A step goes the same way on values as on names, if no copy can hit the entry or the tables: a
    read, or a write to its own page that spares them. -/
theorem follows_step (leads : k.Leads words memory) {t t' : Shared Nat (Option Nat)} {s : Interleaved}
    {i : Nat} (follows : Follows k calls words memory t s)
    (spared : t.phase i = .installed → (calls i).writes →
      t.cell = some i ∧ (calls i).Spares k ∧ (calls i).SparesTables words)
    (steps : ownerStep t i = .ok t') :
    ∃ s', interleave k calls s i = .ok s' ∧ Follows k calls words memory t' s' := by
  cases steps
  have phase := congrFun follows.phase i
  -- once `i` has saved, its further steps leave what is saved alone
  have kept : ∀ p, t.phase i ≠ .idle → ∀ j, Function.update t.phase i p j ≠ .idle →
      s.pte j = some k.pagedPte ∧ Stands calls (pteVal memory k.pagedPte) (s.pteSave j) (t.kept j) := by
    intro p begun j started
    refine follows.kept j ?_
    by_cases same : j = i
    · exact same ▸ begun
    · rwa [Function.update_of_ne same] at started
  cases at' : t.phase i with
  | idle =>
    rw [at'] at phase
    have found : k.getPte s.memory k.pagedBuf = some k.pagedPte :=
      leads.finds s.memory follows.tables follows.entry.1
    simp only [interleave, phase, found, Shared.next, at']
    refine ⟨_, rfl, by rw [← follows.phase], follows.tables, follows.entry, fun j begun => ?_⟩
    by_cases same : j = i
    · subst same
      simpa using follows.entry
    · simp only [Function.update_of_ne same] at begun ⊢
      exact follows.kept j begun
  | saved =>
    rw [at'] at phase
    have begun : t.phase i ≠ .idle := by simp [at']
    simp only [interleave, phase, (follows.kept i begun).1, Shared.next, at']
    refine ⟨_, rfl, by rw [← follows.phase], leads.setPte follows.tables _, ?_, kept _ begun⟩
    rw [pteVal_setPte]
    exact ⟨(calls i).entry_present (follows.kept i begun).2.1, (calls i).frame_entry _⟩
  | installed =>
    rw [at'] at phase
    have begun : t.phase i ≠ .idle := by simp [at']
    cases call : calls i with
    | read filp count =>
      simp only [interleave, phase, call, Shared.next, at']
      exact ⟨_, rfl, by rw [← follows.phase], follows.tables, follows.entry, kept _ begun⟩
    | write filp buf =>
      obtain ⟨own, spares, sparesTables⟩ := spared at' (by rw [call]; rfl)
      rw [call] at spares sparesTables
      have stands := follows.entry
      rw [own] at stands
      have shown : frame (pteVal s.memory k.pagedPte) = (calls i).frame := stands.2
      rw [call] at shown
      obtain ⟨entry, tables⟩ := PmemCall.kept_of_spares spares sparesTables shown
      simp only [interleave, phase, call, PmemCall.filp, PmemCall.count, Shared.next, at']
      refine ⟨_, rfl, by rw [← follows.phase], ?_, ?_, kept _ begun⟩
      · exact fun a member => (tables a member).trans (follows.tables a member)
      · rw [entry]
        exact follows.entry
  | used =>
    rw [at'] at phase
    have begun : t.phase i ≠ .idle := by simp [at']
    obtain ⟨pte, stands⟩ := follows.kept i begun
    simp only [interleave, phase, pte, Shared.next, at']
    refine ⟨_, rfl, by rw [← follows.phase], leads.setPte follows.tables _, ?_, kept _ begun⟩
    rw [pteVal_setPte]
    exact stands
  | restored =>
    rw [at'] at phase
    simp only [interleave, phase, Shared.next, at']
    exact ⟨_, rfl, follows⟩

end

/-! ## Schedules -/

section

variable {k : Kernel} {calls : Nat → PmemCall} {words : Set Nat} {memory : Memory}
  (leads : k.Leads words memory)

include leads

theorem follows_run {before : List Nat} {t : Shared Nat (Option Nat)}
    (spared : Along ownerStep (fun t i => t.phase i = .installed → (calls i).writes →
      t.cell = some i ∧ (calls i).Spares k ∧ (calls i).SparesTables words) (Shared.init none) before)
    (names : run ownerStep (Shared.init none) before = .ok t) :
    ∃ s, run (interleave k calls) (Interleaved.start memory) before = .ok s ∧
      Follows k calls words memory t s := by
  refine run_simulates ?_ (follows_start leads calls) spared names
  intro t s i next follows spared steps
  exact follows_step leads follows spared steps

/-- A schedule that is right on names is right for all calls that spare entry and tables. -/
theorem keepsApart_of_owned {schedule : List Nat} (owned : Owned schedule)
    (spared : SparesWalk k words calls schedule) : KeepsApart k calls memory schedule := by
  have spares : Along ownerStep (fun t i => t.phase i = .installed → (calls i).writes →
      t.cell = some i ∧ (calls i).Spares k ∧ (calls i).SparesTables words)
      (Shared.init none) schedule := by
    refine Along.imp (fun _ => True) ?_ (fun _ _ _ _ _ _ _ => trivial) trivial
      (owned.uses.and (along_of_forall fun i member _ => spared i member))
    exact fun t i _ both at' writes => ⟨both.1 at', both.2 writes⟩
  constructor
  · rw [along_iff_splits]
    rintro before i after s rfl returns at' -
    obtain ⟨t, names⟩ := ownerStep_runs before
    obtain ⟨s', runs, follow⟩ := follows_run leads (Along.append.mp spares).1 names
    cases runs.symm.trans returns
    have owns := ((Along.append.mp owned.uses).2 t names).1 (by rw [← follow.phase]; exact at')
    have stands := follow.entry
    rw [owns] at stands
    exact stands.2
  · intro final returns ended
    obtain ⟨t, names⟩ := ownerStep_runs schedule
    obtain ⟨s', runs, follow⟩ := follows_run leads spares names
    cases runs.symm.trans returns
    have stands := follow.entry
    rw [owned.released t names (by rwa [← follow.phase])] at stands
    exact stands.2

theorem Kernel.Leads.withEntry {entry : BitVec 64} (there : present entry) :
    k.Leads words (Devmem.setPte memory k.pagedPte entry) where
  apart := leads.apart
  there := by rwa [pteVal_setPte]
  finds other same still := leads.finds other (fun a member => by
    rw [same a member, setPte_frame _ _ _ _ (leads.apart a member)]) still

def readByte (fPos : BitVec 64) : PmemCall := .read { fPos } 1

/-- One-byte reads, of page 1 by the calls in `chosen` and of page 0 by the others. -/
def twoPageReads (chosen : Nat → Bool) (i : Nat) : PmemCall :=
  readByte (if chosen i then 0x1000#64 else 0#64)

omit leads in
theorem twoPageReads_spare (chosen : Nat → Bool) (schedule : List Nat) :
    SparesWalk k words (twoPageReads chosen) schedule :=
  fun _ _ writes => absurd writes Bool.false_ne_true

omit leads in
/-- An entry that shows page 1, and has shown page 0 at first, belongs to one of the chosen. -/
theorem owner_of_shown {chosen : Nat → Bool} {entry : BitVec 64} {cell : Option Nat}
    (stands : Stands (twoPageReads chosen) 1#64 entry cell)
    (shown : frame entry = frame 0x1000#64) : ∃ i, cell = some i ∧ chosen i := by
  have pages : frame 1#64 ≠ frame 0x1000#64 ∧ frame 0#64 ≠ frame 0x1000#64 := by decide
  cases cell with
  | none =>
    have free : entry = 1#64 := stands.2
    rw [free] at shown
    exact absurd shown pages.1
  | some i =>
    refine ⟨i, rfl, ?_⟩
    have own : frame entry = frame (if chosen i then 0x1000#64 else 0#64) := stands.2
    by_cases one : chosen i
    · exact one
    · rw [own, if_neg one] at shown
      exact absurd shown pages.2

theorem twoPageReads_follow {before : List Nat} {t : Shared Nat (Option Nat)} (chosen : Nat → Bool)
    (names : run ownerStep (Shared.init none) before = .ok t) :
    ∃ s, run (interleave k (twoPageReads chosen)) (Interleaved.start memory) before = .ok s ∧
      Follows k (twoPageReads chosen) words memory t s := by
  refine follows_run leads (along_of_forall fun i _ t _ writes => ?_) names
  exact absurd writes Bool.false_ne_true

/-- A schedule that is wrong on names goes wrong for reads of one byte from two pages, with an
    entry for page 0 at first. -/
theorem owned_of_correct {schedule : List Nat} (first : pteVal memory k.pagedPte = 1#64)
    (correct : ∀ chosen, KeepsApart k (twoPageReads chosen) memory schedule) : Owned schedule := by
  constructor
  · rw [along_iff_splits]
    intro before i after t splits names at'
    -- the call in question is the only one for page 1
    obtain ⟨s, runs, follows⟩ := twoPageReads_follow leads (· == i) names
    have call : twoPageReads (· == i) i = readByte 0x1000#64 := by simp [twoPageReads]
    have moves : (readByte 0x1000#64).Moves := by unfold PmemCall.Moves; decide
    have own := along_iff_splits.mp (correct (· == i)).own before i after s splits runs
      (by rw [follows.phase]; exact at') (by rwa [call])
    rw [call] at own
    have stands := follows.entry
    rw [first] at stands
    obtain ⟨j, cell, same⟩ := owner_of_shown stands own
    rw [cell, beq_iff_eq.mp same]
  · intro t names ended
    -- here all are for page 1, so an entry that shows page 0 belongs to none
    obtain ⟨s, runs, follows⟩ := twoPageReads_follow leads (fun _ => true) names
    have kept := (correct fun _ => true).restored s runs (by rwa [follows.phase])
    have pages : frame 1#64 ≠ frame 0x1000#64 := by decide
    cases owner : t.cell with
    | none => rfl
    | some j =>
      have stands := follows.entry
      rw [owner, kept, first] at stands
      exact absurd stands.2 pages

/-- Calls that start and end between the same two steps of another are right wherever they are. -/
theorem keepsApart_of_nested {schedule : List Nat} (nested : Nested schedule)
    (spared : SparesWalk k words calls schedule) : KeepsApart k calls memory schedule :=
  keepsApart_of_owned leads nested.owned spared

end

/-- The steps of the calls may come in the order of a schedule, whatever the calls and the memory
    are, if and only if it is right on names.  The tables lead to the entry, and the writes spare
    it and them. -/
theorem interleaved_iff {k : Kernel} (tables : ∃ words memory, k.Leads words memory)
    (schedule : List Nat) :
    (∀ (calls : Nat → PmemCall) (words : Set Nat) (memory : Memory), k.Leads words memory →
      SparesWalk k words calls schedule → KeepsApart k calls memory schedule) ↔ Owned schedule := by
  constructor
  · intro correct
    obtain ⟨words, memory, leads⟩ := tables
    have leads' := leads.withEntry (show present 1#64 by decide)
    exact owned_of_correct leads' (pteVal_setPte _ _ _) fun chosen =>
      correct _ words _ leads' (twoPageReads_spare chosen schedule)
  · exact fun owned calls words memory leads spared => keepsApart_of_owned leads owned spared

/-! ## Two reads -/

def twoReads : Nat → PmemCall
  | 0 => .read { fPos := 0x200000#64 } 1
  | _ => .read { fPos := 0x300000#64 } 1

theorem twoReads_quiet : ∀ i, ¬ (twoReads i).writes
  | 0 => Bool.false_ne_true
  | _ + 1 => Bool.false_ne_true

/-- The two reads get as far as they get on names. -/
theorem twoReads_follow (before : List Nat) {t : Shared Nat (Option Nat)}
    (names : run ownerStep (Shared.init none) before = .ok t) :
    ∃ s, run (interleave sampleKernel twoReads) (Interleaved.start sampleMemory) before = .ok s ∧
      Follows sampleKernel twoReads (samplePaging.tableWords sampleMemory sampleKernel.pagedBuf)
        sampleMemory t s :=
  follows_run sampleKernel_leads
    (along_of_forall fun i _ _ _ writes => absurd writes (twoReads_quiet i)) names

/-- Each saves and installs before the other has copied: read 0 copies from the page of read 1, and
    read 1 puts back what read 0 had installed. -/
theorem crossed_reads :
    let schedule := [0, 0, 1, 1, 0, 0, 1, 1]
    ¬ Along (interleave sampleKernel twoReads) (OwnPage sampleKernel twoReads)
      (Interleaved.start sampleMemory) schedule ∧
    ∃ final, run (interleave sampleKernel twoReads) (Interleaved.start sampleMemory) schedule =
        .ok final ∧
      (∀ i ∈ schedule, final.phase i = .restored) ∧
      frame (pteVal final.memory sampleKernel.pagedPte) = (twoReads 0).frame ∧
      frame (pteVal sampleMemory sampleKernel.pagedPte) ≠ (twoReads 0).frame := by
  intro schedule
  constructor
  · intro along
    obtain ⟨s, runs, follows⟩ := twoReads_follow [0, 0, 1, 1] rfl
    have moves : (twoReads 0).Moves := by unfold PmemCall.Moves; decide
    have own := along_iff_splits.mp along [0, 0, 1, 1] 0 [0, 1, 1] s rfl runs
      (by rw [follows.phase]; rfl) moves
    -- the entry is that of read 1
    have other : frame (pteVal s.memory sampleKernel.pagedPte) = (twoReads 1).frame := follows.entry.2
    rw [other] at own
    exact absurd own (by decide)
  · obtain ⟨final, runs, follows⟩ := twoReads_follow schedule rfl
    refine ⟨final, runs, ?_, follows.entry.2, by decide⟩
    rw [follows.phase]
    decide

theorem nested_reads : KeepsApart sampleKernel twoReads sampleMemory [0, 0, 1, 1, 1, 1, 0, 0] := by
  have inner : Nested [1, 1, 1, 1] :=
    .window .nil .nil .nil (by decide) (by decide) (by decide) (by simp) (by simp) (by simp)
  have outer : Nested [0, 0, 1, 1, 1, 1, 0, 0] :=
    .window .nil inner .nil (by decide) (by decide) (by decide) (by simp) (by simp) (by simp)
  exact (interleaved_iff ⟨_, _, sampleKernel_leads⟩ _).mpr outer.owned twoReads _ _ sampleKernel_leads
    fun i _ writes => absurd writes (twoReads_quiet i)

end TestPrograms.Devmem
