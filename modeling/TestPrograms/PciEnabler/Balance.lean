import TestPrograms.PciEnabler.Program

/-! # What probes leave behind

A device at rest is one that is not bound, or what a remove would make of it.  Nothing that
happens to a device brings a lost reference or lost regions back or takes a mapping away,
so a run leaves it as it was only if each of its probes does.
-/

namespace TestPrograms.PciEnabler

open TestPrograms.Foundations

/-- The error path undoes exactly what this probe has done: the device was enabled, nobody
    owned its regions, and the probe failed before it had a mapping. -/
def Undone (outcome : Outcome) (pdev : PciDev) : Prop :=
  outcome.enable = 0 ∧ pdev.owner = none ∧ (outcome.request ≠ 0 ∨ outcome.mmio0 = 0)

/-! ## Wear -/

structure Worn (before after : PciDev) : Prop where
  count : after.enableCount ≤ before.enableCount
  owner : after.owner = before.owner ∨ after.owner = none
  mappings : before.mappings.length ≤ after.mappings.length

/-- Worn, and not to be made good again. -/
def Spoilt (before after : PciDev) : Prop := Worn before after ∧ ¬ Worn after before

theorem Worn.refl (pdev : PciDev) : Worn pdev pdev := ⟨Int.le_refl _, .inl rfl, Nat.le_refl _⟩

theorem Worn.trans {first second third : PciDev} (before : Worn first second)
    (after : Worn second third) : Worn first third := by
  refine ⟨Int.le_trans after.count before.count, ?_, Nat.le_trans before.mappings after.mappings⟩
  rcases after.owner with same | none
  · rw [same]
    exact before.owner
  · exact .inr none

theorem Spoilt.trans_worn {first second third : PciDev} (before : Spoilt first second)
    (after : Worn second third) : Spoilt first third :=
  ⟨before.1.trans after, fun back => before.2 (after.trans back)⟩

theorem Worn.trans_spoilt {first second third : PciDev} (before : Worn first second)
    (after : Spoilt second third) : Spoilt first third :=
  ⟨before.trans after.1, fun back => after.2 (back.trans before)⟩

theorem Spoilt.ne {before after : PciDev} (spoilt : Spoilt before after) : after ≠ before := by
  rintro rfl
  exact spoilt.2 (Worn.refl _)

theorem spoilt_of_count {before after : PciDev} (worn : Worn before after)
    (fewer : after.enableCount < before.enableCount) : Spoilt before after :=
  ⟨worn, fun back => absurd back.count (Int.not_le.mpr fewer)⟩

theorem spoilt_of_mappings {before after : PciDev} (worn : Worn before after)
    (more : before.mappings.length < after.mappings.length) : Spoilt before after :=
  ⟨worn, fun back => absurd back.mappings (Nat.not_le.mpr more)⟩

/-! ## One probe -/

/-- A device at rest after a probe that returned `result`. -/
def afterProbe {Dev : Type} (result : Int × Statics Dev × PciDev) : PciDev :=
  if result.1 = 0 then removeOne result.2.2 else result.2.2

section

variable {Dev : Type} (dev : Dev) {outcome : Outcome} (statics : Statics Dev) {pdev : PciDev}

theorem afterProbe_undone (undone : Undone outcome pdev) :
    (initOne dev outcome statics pdev).1 = -1 ∧
      afterProbe (initOne dev outcome statics pdev) = pdev := by
  obtain ⟨enabled, free, failed⟩ := undone
  cases pdev
  simp only at free
  subst free
  by_cases refused : outcome.request = 0
  · have noMapping : outcome.mmio0 = 0 := failed.resolve_left (not_not_intro refused)
    simp [afterProbe, initOne, pciEnableDevice, pciRequestRegions, ioremap, errOut, pciDisableDevice,
      pciReleaseRegions, enabled, refused, noMapping]
  · simp [afterProbe, initOne, pciEnableDevice, pciRequestRegions, errOut, pciDisableDevice,
      pciReleaseRegions, enabled, refused]

theorem afterProbe_spoilt (kept : ¬ Undone outcome pdev) :
    Spoilt pdev (afterProbe (initOne dev outcome statics pdev)) := by
  by_cases enabled : outcome.enable = 0
  · by_cases free : pdev.owner = none
    · -- enabled and free: the first mapping is made, and never taken away
      have granted : outcome.request = 0 := by
        by_contra refused
        exact kept ⟨enabled, free, .inl refused⟩
      have mapped : outcome.mmio0 ≠ 0 := fun null => kept ⟨enabled, free, .inr null⟩
      by_cases second : outcome.mmio1 = 0
      · apply spoilt_of_mappings ⟨?_, .inr ?_, ?_⟩ <;>
          simp [afterProbe, initOne, pciEnableDevice, pciRequestRegions, ioremap, errOut,
            pciDisableDevice, pciReleaseRegions, enabled, free, granted, mapped, second]
      · apply spoilt_of_mappings ⟨?_, .inr ?_, ?_⟩ <;>
          simp [afterProbe, initOne, removeOne, pciEnableDevice, pciRequestRegions, ioremap,
            pciDisableDevice, pciReleaseRegions, enabled, free, granted, mapped, second]
    · -- the regions are another driver's, and are released all the same
      have after : afterProbe (initOne dev outcome statics pdev) = { pdev with owner := none } := by
        simp [afterProbe, initOne, pciEnableDevice, pciRequestRegions, errOut, pciDisableDevice,
          pciReleaseRegions, enabled, free]
      rw [after]
      refine ⟨⟨Int.le_refl _, .inr rfl, Nat.le_refl _⟩, fun back => ?_⟩
      rcases back.owner with same | none
      · exact free same
      · exact free none
  · -- not enabled, and disabled all the same
    have after : afterProbe (initOne dev outcome statics pdev) =
        { pdev with owner := none, enableCount := pdev.enableCount - 1 } := by
      simp [afterProbe, initOne, pciEnableDevice, errOut, pciDisableDevice, pciReleaseRegions, enabled]
    rw [after]
    exact spoilt_of_count ⟨Int.sub_le_self _ (by decide), .inr rfl, Nat.le_refl _⟩
      (Int.sub_lt_self _ (by decide))

end

/-! ## Runs -/

section

variable {Dev : Type} [DecidableEq Dev]

/-- The device as it is, or as a remove would leave it. -/
def rest (bus : Bus Dev) (dev : Dev) : PciDev :=
  if bus.bound dev then removeOne (bus.devices dev) else bus.devices dev

theorem step_rest {bus next : Bus Dev} {event : Event Dev} (dev : Dev)
    (steps : step bus event = .ok next) :
    (∃ outcome, event = .probe dev outcome ∧ ¬ Undone outcome (bus.devices dev) ∧
      Spoilt (rest bus dev) (rest next dev)) ∨
    ((∀ outcome, event = .probe dev outcome → Undone outcome (bus.devices dev)) ∧
      rest next dev = rest bus dev) := by
  cases event with
  | probe other outcome =>
    simp only [step] at steps
    split at steps
    · cases steps
    · rename_i idle
      cases steps
      by_cases same : dev = other
      · subst same
        have now : rest bus dev = bus.devices dev := if_neg idle
        have later : rest ({
            devices := Function.update bus.devices dev
              (initOne dev outcome bus.statics (bus.devices dev)).2.2
            bound := Function.update bus.bound dev
              (decide ((initOne dev outcome bus.statics (bus.devices dev)).1 = 0))
            statics := (initOne dev outcome bus.statics (bus.devices dev)).2.1 } : Bus Dev) dev =
              afterProbe (initOne dev outcome bus.statics (bus.devices dev)) := by
          simp [rest, afterProbe]
        by_cases undone : Undone outcome (bus.devices dev)
        · refine .inr ⟨?_, ?_⟩
          · rintro outcome' ⟨⟩
            exact undone
          · rw [now]
            exact later.trans (afterProbe_undone dev bus.statics undone).2
        · refine .inl ⟨outcome, rfl, undone, ?_⟩
          rw [now]
          exact later ▸ afterProbe_spoilt dev bus.statics undone
      · refine .inr ⟨?_, by simp [rest, same]⟩
        rintro outcome' ⟨⟩
        exact absurd rfl same
  | remove other =>
    refine .inr ⟨fun outcome probe => (by cases probe), ?_⟩
    simp only [step] at steps
    split at steps
    · rename_i bound
      cases steps
      by_cases same : dev = other
      · subst same
        simp [rest, bound]
      · simp [rest, same]
    · cases steps

theorem run_worn {bus final : Bus Dev} {events : List (Event Dev)} (dev : Dev)
    (returns : run step bus events = .ok final) : Worn (rest bus dev) (rest final dev) := by
  refine run_invariant (fun now => Worn (rest bus dev) (rest now dev)) ?_ (Worn.refl _)
    (along_of_forall (P := fun _ _ => True) fun _ _ _ => trivial) returns
  intro now event next worn _ steps
  rcases step_rest dev steps with ⟨_, _, _, spoilt⟩ | ⟨_, same⟩
  · exact worn.trans spoilt.1
  · rwa [same]

/-- A device that is not bound before and after a run of probes and removes has its enable
    count, the owner of its regions and its mappings back if and only if every probe of it in
    the run was one the error path undoes. -/
theorem probes_balanced_iff {bus final : Bus Dev} {events : List (Event Dev)}
    (returns : run step bus events = .ok final) (dev : Dev) (idle : bus.bound dev = false)
    (idle' : final.bound dev = false) :
    final.devices dev = bus.devices dev ↔
      Along step (fun now event => ∀ outcome, event = .probe dev outcome →
        Undone outcome (now.devices dev)) bus events := by
  have atRest : rest bus dev = bus.devices dev := by rw [rest, idle, if_neg Bool.false_ne_true]
  have atRest' : rest final dev = final.devices dev := by rw [rest, idle', if_neg Bool.false_ne_true]
  rw [← atRest, ← atRest']
  constructor
  · intro same
    rw [along_iff_splits]
    rintro before event after middle rfl reached outcome rfl
    by_contra kept
    -- this probe spoils the device, and what comes after does not make it good
    rw [run_append_ok _ reached] at returns
    obtain ⟨next, steps, returns⟩ := run_cons_inv returns
    rcases step_rest dev steps with ⟨_, _, _, spoilt⟩ | ⟨undone, _⟩
    · have whole := ((run_worn dev reached).trans_spoilt spoilt).trans_worn (run_worn dev returns)
      exact whole.ne same
    · exact kept (undone outcome rfl)
  · intro along
    refine run_invariant (fun now => rest now dev = rest bus dev) ?_ rfl along returns
    intro now event next same undone steps
    rcases step_rest dev steps with ⟨outcome, probe, kept, _⟩ | ⟨_, still⟩
    · exact absurd (undone outcome probe) kept
    · rw [still, same]

end

/-- A board nobody uses, and one whose regions another driver has requested. -/
def spare : Bus Unit := ⟨fun _ => ⟨0, none, []⟩, fun _ => false, ⟨none, -1⟩⟩

def taken : Bus Unit := ⟨fun _ => ⟨0, some .other, []⟩, fun _ => false, ⟨none, -1⟩⟩

/-- A probe that fails takes the regions from their owner, and one that succeeds leaves its
    mappings behind at the remove. -/
theorem probe_unbalanced :
    (initOne () ⟨0, 0, 0, 0⟩ taken.statics (taken.devices ())).1 = -1 ∧
    (∃ final, run step taken [.probe () ⟨0, 0, 0, 0⟩] = .ok final ∧
      final.devices () = ⟨0, none, []⟩ ∧ final.devices () ≠ taken.devices ()) ∧
    ∃ final, run step spare [.probe () ⟨0, 0, 0x1000, 0x2000⟩, .remove ()] = .ok final ∧
      final.devices () = ⟨0, none, [⟨0, 0x1000⟩, ⟨2, 0x2000⟩]⟩ ∧
      final.devices () ≠ spare.devices () :=
  ⟨rfl, ⟨_, rfl, rfl, by decide⟩, _, rfl, rfl, by decide⟩

theorem probes_balanced_sample :
    ∃ final, run step spare [.probe () ⟨0, 0, 0, 0⟩] = .ok final ∧
      (final.devices () = spare.devices () ↔
        Along step (fun now event => ∀ outcome, event = .probe () outcome →
          Undone outcome (now.devices ())) spare [.probe () ⟨0, 0, 0, 0⟩]) :=
  ⟨_, rfl, probes_balanced_iff rfl () rfl rfl⟩

end TestPrograms.PciEnabler
