import Mathlib.Data.List.Basic
import Mathlib.Logic.Function.Basic
import TestPrograms.Foundations.Runs

/-! # Saving and restoring a shared cell

Users of one cell each save what they find in it, install something of their own, use it and
put back what they saved.  A schedule says whose step is next.  Whether every user finds its
own installation depends on the schedule alone, and it does where the users nest.
-/

namespace TestPrograms.Foundations

inductive Phase where
  | idle
  | saved
  | installed
  | used
  | restored
  deriving DecidableEq, Repr

structure Shared (ι β : Type) where
  cell : β
  kept : ι → β
  phase : ι → Phase

section

variable {ι β : Type} [DecidableEq ι] (install : ι → β → β)

/-- The next step of `i`; one that has restored has no more. -/
def Shared.next (s : Shared ι β) (i : ι) : Shared ι β :=
  match s.phase i with
  | .idle =>
    { s with kept := Function.update s.kept i s.cell, phase := Function.update s.phase i .saved }
  | .saved =>
    { s with cell := install i (s.kept i), phase := Function.update s.phase i .installed }
  | .installed => { s with phase := Function.update s.phase i .used }
  | .used => { s with cell := s.kept i, phase := Function.update s.phase i .restored }
  | .restored => s

def Shared.step (s : Shared ι β) (i : ι) : Except Empty (Shared ι β) := .ok (s.next install i)

def Shared.init (cell : β) : Shared ι β where
  cell
  kept _ := cell
  phase _ := .idle

/-- A user that uses the cell finds what it has installed. -/
def Shared.FindsOwn (s : Shared ι β) (i : ι) : Prop :=
  s.phase i = .installed → s.cell = install i (s.kept i)

/-- Schedules in which whatever starts within the steps of a user also ends between the same
    two of them. -/
inductive Nested : List ι → Prop where
  | nil : Nested []
  | append {a b : List ι} : Nested a → Nested b → a.Disjoint b → Nested (a ++ b)
  | window {i : ι} {a b c : List ι} : Nested a → Nested b → Nested c → i ∉ a → i ∉ b → i ∉ c →
    a.Disjoint b → a.Disjoint c → b.Disjoint c →
    Nested (i :: (a ++ i :: (b ++ i :: (c ++ [i]))))

/-- Nothing has changed but for the users of `w` and the cell. -/
structure Shared.Others (w : List ι) (s s' : Shared ι β) : Prop where
  kept : ∀ j, j ∉ w → s'.kept j = s.kept j
  phase : ∀ j, j ∉ w → s'.phase j = s.phase j

structure Shared.Closed (w : List ι) (s s' : Shared ι β) : Prop extends Others w s s' where
  cell : s'.cell = s.cell

variable {install}

omit [DecidableEq ι] in
theorem Shared.Others.append {a b : List ι} {s s' s'' : Shared ι β} (first : Others a s s')
    (second : Others b s' s'') : Others (a ++ b) s s'' where
  kept j outside := by
    rw [List.mem_append, not_or] at outside
    exact (second.kept j outside.2).trans (first.kept j outside.1)
  phase j outside := by
    rw [List.mem_append, not_or] at outside
    exact (second.phase j outside.2).trans (first.phase j outside.1)

omit [DecidableEq ι] in
theorem Shared.Others.idle {v w : List ι} {s s' : Shared ι β} (others : Others v s s')
    (disjoint : v.Disjoint w) (idle : ∀ j ∈ w, s.phase j = .idle) : ∀ j ∈ w, s'.phase j = .idle :=
  fun j member => (others.phase j fun inside => disjoint inside member).trans (idle j member)

variable (install) in
theorem Shared.next_others (s : Shared ι β) (i : ι) : Others [i] s (s.next install i) := by
  constructor
  · intro j outside
    have other : j ≠ i := List.ne_of_not_mem_cons outside
    unfold next
    split <;> simp [other]
  · intro j outside
    have other : j ≠ i := List.ne_of_not_mem_cons outside
    unfold next
    split <;> simp [other]

variable (install) in
theorem Shared.next_idle {s : Shared ι β} {i : ι} (phase : s.phase i = .idle) :
    (s.next install i).cell = s.cell ∧ (s.next install i).kept i = s.cell ∧
      (s.next install i).phase i = .saved := by
  simp [next, phase]

variable (install) in
theorem Shared.next_saved {s : Shared ι β} {i : ι} (phase : s.phase i = .saved) :
    (s.next install i).cell = install i (s.kept i) ∧ (s.next install i).kept i = s.kept i ∧
      (s.next install i).phase i = .installed := by
  simp [next, phase]

variable (install) in
theorem Shared.next_installed {s : Shared ι β} {i : ι} (phase : s.phase i = .installed) :
    (s.next install i).cell = s.cell ∧ (s.next install i).kept i = s.kept i ∧
      (s.next install i).phase i = .used := by
  simp [next, phase]

variable (install) in
theorem Shared.next_used {s : Shared ι β} {i : ι} (phase : s.phase i = .used) :
    (s.next install i).cell = s.kept i := by
  simp [next, phase]

/-- A nested schedule runs through, every user finds its own, and the cell is left as it was. -/
theorem Nested.closes {w : List ι} (nested : Nested w) {s : Shared ι β}
    (idle : ∀ j ∈ w, s.phase j = .idle) :
    ∃ s', run (Shared.step install) s w = .ok s' ∧
      Along (Shared.step install) (Shared.FindsOwn install) s w ∧ Shared.Closed w s s' := by
  induction nested generalizing s with
  | nil => exact ⟨s, rfl, trivial, ⟨fun _ _ => rfl, fun _ _ => rfl⟩, rfl⟩
  | @append a b _ _ disjoint first second =>
    obtain ⟨s₁, runs₁, finds₁, closed₁⟩ := first fun j member =>
      idle j (List.mem_append_left _ member)
    obtain ⟨s₂, runs₂, finds₂, closed₂⟩ := second <| closed₁.idle disjoint fun j member =>
      idle j (List.mem_append_right _ member)
    refine ⟨s₂, (run_append_ok b runs₁).trans runs₂, (Along.append_ok runs₁).mpr ⟨finds₁, finds₂⟩, ?_⟩
    exact ⟨closed₁.append closed₂.toOthers, closed₂.cell.trans closed₁.cell⟩
  | @window i a b c _ _ _ notA notB notC ab ac bc first second third =>
    have idleA : ∀ j ∈ a, s.phase j = .idle := fun j member => idle j (by simp [member])
    have idleB : ∀ j ∈ b, s.phase j = .idle := fun j member => idle j (by simp [member])
    have idleC : ∀ j ∈ c, s.phase j = .idle := fun j member => idle j (by simp [member])
    have apart : ∀ {w : List ι}, i ∉ w → [i].Disjoint w := by
      intro w outside
      rwa [List.singleton_disjoint]
    -- save, and what starts and ends before the installation
    obtain ⟨cell₁, kept₁, phase₁⟩ := Shared.next_idle install (idle i List.mem_cons_self)
    have others₁ := s.next_others install i
    obtain ⟨s₂, runsA, findsA, closedA⟩ := first (others₁.idle (apart notA) idleA)
    have phase₂ := (closedA.phase i notA).trans phase₁
    have kept₂ := (closedA.kept i notA).trans kept₁
    -- install, and what starts and ends before the use
    obtain ⟨cell₃, kept₃, phase₃⟩ := Shared.next_saved install phase₂
    have others₃ := s₂.next_others install i
    have idleB₂ := closedA.idle ab (others₁.idle (apart notB) idleB)
    obtain ⟨s₄, runsB, findsB, closedB⟩ := second (others₃.idle (apart notB) idleB₂)
    have phase₄ := (closedB.phase i notB).trans phase₃
    have kept₄ := (closedB.kept i notB).trans (kept₃.trans kept₂)
    have cell₄ := closedB.cell.trans cell₃
    -- use, and what starts and ends before the cell is put back
    obtain ⟨cell₅, kept₅, phase₅⟩ := Shared.next_installed install phase₄
    have others₅ := s₄.next_others install i
    have idleC₂ := closedA.idle ac (others₁.idle (apart notC) idleC)
    have idleC₄ := closedB.idle bc (others₃.idle (apart notC) idleC₂)
    obtain ⟨s₆, runsC, findsC, closedC⟩ := third (others₅.idle (apart notC) idleC₄)
    have phase₆ := (closedC.phase i notC).trans phase₅
    have kept₆ := (closedC.kept i notC).trans (kept₅.trans kept₄)
    have cell₇ := (Shared.next_used install phase₆).trans kept₆
    have quiet : ∀ {t : Shared ι β} {phase : Phase}, t.phase i = phase → phase ≠ .installed →
        t.FindsOwn install i := fun at' other use => absurd (at'.symm.trans use) other
    refine ⟨s₆.next install i, ?_, ?_, ?_, cell₇⟩
    · rw [run_cons_ok _ rfl, run_append_ok _ runsA, run_cons_ok _ rfl, run_append_ok _ runsB,
        run_cons_ok _ rfl, run_append_ok _ runsC]
      rfl
    · rw [Along.cons_ok rfl, Along.append_ok runsA, Along.cons_ok rfl, Along.append_ok runsB,
        Along.cons_ok rfl, Along.append_ok runsC]
      exact ⟨quiet (idle i List.mem_cons_self) (by decide), findsA, quiet phase₂ (by decide), findsB,
        fun _ => by rw [cell₄, kept₄, kept₂], findsC, quiet phase₆ (by decide), fun _ _ => trivial⟩
    · exact others₁.append (closedA.append (others₃.append (closedB.append
        (others₅.append (closedC.append (s₆.next_others install i))))))

/-! ## Owners

The schedule on names: the cell belongs to the user that installed last and, after a restore,
to whom it belonged when the restoring user saved it. -/

def ownerStep : Shared ι (Option ι) → ι → Except Empty (Shared ι (Option ι)) :=
  Shared.step fun i _ => some i

theorem ownerStep_runs (schedule : List ι) :
    ∃ t, run ownerStep (Shared.init none) schedule = .ok t :=
  run_total (fun _ _ => ⟨_, rfl⟩) _ schedule

/-- Every user uses the cell while it belongs to it, and when all have put back what they saved
    it belongs to none. -/
structure Owned (schedule : List ι) : Prop where
  uses : Along ownerStep (fun t i => t.phase i = .installed → t.cell = some i) (Shared.init none)
    schedule
  released : ∀ t, run ownerStep (Shared.init none) schedule = .ok t →
    (∀ i ∈ schedule, t.phase i = .restored) → t.cell = none

theorem Nested.owned {schedule : List ι} (nested : Nested schedule) : Owned schedule := by
  obtain ⟨t, runs, finds, closed⟩ : ∃ t, run ownerStep (Shared.init none) schedule = .ok t ∧
      Along ownerStep (Shared.FindsOwn fun i _ => some i) (Shared.init none) schedule ∧
        Shared.Closed schedule (Shared.init none) t := nested.closes fun _ _ => rfl
  refine ⟨finds, fun t' returns _ => ?_⟩
  cases runs.symm.trans returns
  exact closed.cell

end

end TestPrograms.Foundations
