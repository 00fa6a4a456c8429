import TestPrograms.Genpipe.Module

/-! # A load that fails

The error path of `genpipe_init` frees the two buffers.  The reference to the device, taken
first, is never given back, and a driver that is already patched stays patched.
-/

namespace TestPrograms.Genpipe

/-- What the load has changed is as it was. -/
structure Undone (w left : World) : Prop where
  deviceRefs : left.deviceRefs = w.deviceRefs
  allocated : left.allocated = w.allocated
  code : left.image.memory = w.image.memory
  ptypeBase : left.ptypeBase = w.ptypeBase
  ptypeAll : left.ptypeAll = w.ptypeAll

/-- The buffers and the handlers are as they were, `refs` references are kept. -/
structure Leaves (w left : World) (refs : Nat) (image : Image) : Prop where
  deviceRefs : left.deviceRefs = w.deviceRefs + refs
  allocated : left.allocated = w.allocated
  image : left.image = image
  ptypeBase : left.ptypeBase = w.ptypeBase
  ptypeAll : left.ptypeAll = w.ptypeAll

section

variable {m : Loaded} {params : Params} {outcome : Outcome} {w left : World} {ret : Int}

theorem freeBuffers_allocated_none (empty : w.pbuf0.rxStartPtr = 0 ∧ w.pbuf0.txStartPtr = 0) :
    (freeBuffers w).allocated = w.allocated := by
  simp [freeBuffers, freeRx, freeTx, empty]

theorem freeBuffers_allocated_rx {buffers : List Nat}
    (rx : w.allocated = w.pbuf0.rxStartPtr :: buffers) (tx : w.pbuf0.txStartPtr = 0)
    (some : w.pbuf0.rxStartPtr ≠ 0) : (freeBuffers w).allocated = buffers := by
  simp [freeBuffers, freeRx, freeTx, rx, tx, some]

theorem freeBuffers_allocated_both {buffers : List Nat}
    (both : w.allocated = w.pbuf0.txStartPtr :: w.pbuf0.rxStartPtr :: buffers)
    (some : w.pbuf0.rxStartPtr ≠ 0 ∧ w.pbuf0.txStartPtr ≠ 0) :
    (freeBuffers w).allocated = buffers := by
  by_cases same : w.pbuf0.txStartPtr = w.pbuf0.rxStartPtr
  · simp [freeBuffers, freeRx, freeTx, both, some, same]
  · simp [freeBuffers, freeRx, freeTx, both, some, same]

theorem freeBuffers_leaves {acquired : World} {refs : Nat} {image : Image}
    (deviceRefs : acquired.deviceRefs = w.deviceRefs + refs)
    (allocated : (freeBuffers acquired).allocated = w.allocated) (code : acquired.image = image)
    (ptypeBase : acquired.ptypeBase = w.ptypeBase) (ptypeAll : acquired.ptypeAll = w.ptypeAll) :
    Leaves w (freeBuffers acquired) refs image := by
  obtain ⟨frameImage, frameAll, frameBase, frameRefs⟩ := freeBuffers_frame acquired
  exact ⟨frameRefs.trans deviceRefs, allocated, frameImage.trans code, frameBase.trans ptypeBase,
    frameAll.trans ptypeAll⟩

theorem finishInit_fails {acquired : World}
    (fails : finishInit m params outcome acquired = .ok (ret, left)) (nonzero : ret ≠ 0) :
    outcome.miscRegister ≠ 0 ∧ left = freeBuffers acquired := by
  unfold finishInit at fails
  split at fails
  · rename_i unregistered
    cases fails
    exact ⟨unregistered, rfl⟩
  · dsimp only at fails
    split at fails
    · cases fails
    · cases fails
      exact absurd rfl nonzero

theorem hookDriver_some {hooked : World} (hooks : hookDriver m params w = some hooked) :
    ∃ image, hooked = { w with image } ∧ (image = w.image ∨
      hookIxgbe m.getPte w.symbols m.own params.hookDriver w.image = some image) := by
  unfold hookDriver at hooks
  split at hooks
  · obtain ⟨image, patched, rfl⟩ := Option.map_eq_some_iff.mp hooks
    exact ⟨image, rfl, .inr patched⟩
  · cases hooks
    exact ⟨w.image, rfl, .inl rfl⟩

/-- A load that fails after the device is found keeps the reference; the code is patched if
    it is the registration that fails. -/
theorem genpipeInit_fails (unused : w.pbuf0.rxStartPtr = 0 ∧ w.pbuf0.txStartPtr = 0)
    (fails : genpipeInit m params outcome w = .ok (ret, left)) (nonzero : ret ≠ 0) :
    outcome.device = 0 ∧ Leaves w left 0 w.image ∨
      outcome.device ≠ 0 ∧ ∃ image, Leaves w left 1 image ∧
        (image = w.image ∨ outcome.miscRegister ≠ 0 ∧ ∃ symbols, outcome.table = some symbols ∧
          hookIxgbe m.getPte symbols m.own params.hookDriver w.image = some image) := by
  rw [genpipeInit] at fails
  dsimp only at fails
  by_cases device : outcome.device = 0
  · rw [if_pos device] at fails
    cases fails
    exact .inl ⟨device, freeBuffers_leaves rfl (freeBuffers_allocated_none unused) rfl rfl rfl⟩
  refine .inr ⟨device, ?_⟩
  rw [if_neg device] at fails
  by_cases rx : outcome.rxBuffer = 0
  · rw [if_pos rx] at fails
    cases fails
    exact ⟨w.image, freeBuffers_leaves rfl (freeBuffers_allocated_none ⟨rx, unused.2⟩) rfl rfl rfl,
      .inl rfl⟩
  rw [if_neg rx] at fails
  by_cases tx : outcome.txBuffer = 0
  · rw [if_pos tx] at fails
    cases fails
    exact ⟨w.image, freeBuffers_leaves rfl (freeBuffers_allocated_rx rfl tx rx) rfl rfl rfl, .inl rfl⟩
  rw [if_neg tx] at fails
  cases table : outcome.table with
  | none =>
    simp only [table] at fails
    cases fails
    exact ⟨w.image, freeBuffers_leaves rfl (freeBuffers_allocated_both rfl ⟨rx, tx⟩) rfl rfl rfl,
      .inl rfl⟩
  | some symbols =>
    simp only [table] at fails
    have buffers (image : Image) :
        (freeBuffers (prepared outcome symbols image w)).allocated = w.allocated :=
      freeBuffers_allocated_both rfl ⟨rx, tx⟩
    split at fails
    · cases fails
      exact ⟨w.image, freeBuffers_leaves rfl (buffers w.image) rfl rfl rfl, .inl rfl⟩
    · rename_i acquired driver
      -- up to the driver's code the world is the prepared one
      replace driver : hookDriver m params (prepared outcome symbols w.image w) = some acquired := driver
      obtain ⟨unregistered, rfl⟩ := finishInit_fails fails nonzero
      obtain ⟨image, rfl, patched⟩ := hookDriver_some driver
      refine ⟨image, freeBuffers_leaves rfl (buffers image) rfl rfl rfl, ?_⟩
      exact patched.imp_right fun hooked => ⟨unregistered, symbols, rfl, hooked⟩

/-- A load that fails leaves everything as it was if and only if it fails because there is no
    such device. -/
theorem init_undone_iff (unused : w.pbuf0.rxStartPtr = 0 ∧ w.pbuf0.txStartPtr = 0)
    (fails : genpipeInit m params outcome w = .ok (ret, left)) (nonzero : ret ≠ 0) :
    Undone w left ↔ outcome.device = 0 := by
  cases genpipeInit_fails unused fails nonzero with
  | inl missing =>
    obtain ⟨device, leaves⟩ := missing
    exact iff_of_true ⟨leaves.deviceRefs, leaves.allocated, congrArg Image.memory leaves.image,
      leaves.ptypeBase, leaves.ptypeAll⟩ device
  | inr later =>
    obtain ⟨device, image, leaves, -⟩ := later
    refine iff_of_false (fun undone => ?_) device
    have refs := leaves.deviceRefs
    rw [undone.deviceRefs] at refs
    omega

end

/-! ## A name that is taken -/

def busyOutcome : Outcome := { sampleOutcome with miscRegister := -16 }

/-- One call of `netif_rx` in the driver, and `misc_register` returns `-EBUSY`. -/
theorem init_left_patched :
    let w := sampleWorld [0xe8#8, 0xfb#8, 0x03#8, 0x50#8, 0xe1#8] []
    let params : Params := { hookDevAddPack := 0#32, hookDriver := 1#32 }
    ∃ left, genpipeInit sampleLoaded params busyOutcome w = .ok (-16, left) ∧
      left.deviceRefs = w.deviceRefs + 1 ∧
      left.image.memory 0xffffffffa0000003 ≠ w.image.memory 0xffffffffa0000003 ∧ ¬ Undone w left := by
  intro w params
  let patched := hookLoop sampleLoaded.getPte sampleSymbols sampleLoaded.own 1#32 5
    sampleSymbols.driverTop w.image
  have hooked : hookIxgbe sampleLoaded.getPte sampleSymbols sampleLoaded.own 1#32 w.image =
      some patched := rfl
  have fails : genpipeInit sampleLoaded params busyOutcome w =
      .ok (-16, freeBuffers (prepared busyOutcome sampleSymbols patched w)) := by
    have reaches : genpipeInit sampleLoaded params busyOutcome w =
        finishInit sampleLoaded params busyOutcome (prepared busyOutcome sampleSymbols patched w) :=
      genpipeInit_reaches (by decide) (by decide) (by decide) rfl hooked
    rw [reaches, finishInit]
    exact if_pos (by decide)
  have frame := freeBuffers_frame (prepared busyOutcome sampleSymbols patched w)
  refine ⟨_, fails, frame.2.2.2, ?_, fun undone => ?_⟩
  · rw [frame.1]
    decide
  · exact absurd (frame.2.2.2.symm.trans undone.deviceRefs) (by decide)

/-- No such device. -/
theorem init_undone_sample :
    let w := sampleWorld [] []
    let params : Params := { hookDevAddPack := 0#32, hookDriver := 1#32 }
    let outcome := { sampleOutcome with device := 0 }
    ∃ left, genpipeInit sampleLoaded params outcome w = .ok (-1, left) ∧
      (Undone w left ↔ outcome.device = 0) := by
  intro w params outcome
  have fails : genpipeInit sampleLoaded params outcome w = .ok (-1, freeBuffers { w with device := 0 }) := by
    rw [genpipeInit]
    exact if_pos rfl
  exact ⟨_, fails, init_undone_iff ⟨rfl, rfl⟩ fails (by decide)⟩

end TestPrograms.Genpipe
