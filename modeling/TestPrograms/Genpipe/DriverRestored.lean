import TestPrograms.Genpipe.Module

/-! # The driver after unloading

`genpipe_cleanup` puts the handlers back but not the driver's calls, so the driver is as
it was only where there was nothing to redirect.  The scan reads code it has patched
itself; a changed byte stays changed unless a call overlaps the displacement before it.
-/

namespace TestPrograms.Genpipe

open TestPrograms.Foundations
open TestPrograms.Foundations.Memory

/-- A call at `ptr` leads to a function hooked at the level, its page is found, and the
    replacement is not what it leads to already. -/
def Redirected (m : Loaded) (symbols : Symbols) (level : BitVec 32) (memory : Memory) (ptr : Nat) :
    Prop :=
  (m.getPte ptr).isSome ∧ ∃ new, redirection symbols m.own level memory ptr = some new ∧
    new ≠ displacement memory ptr

/-- The displacement of the call lies in the range and no call overlaps it. -/
def Plain (symbols : Symbols) (memory : Memory) (ptr : Nat) : Prop :=
  ptr + 5 ≤ symbols.driverBottom ∧ ∀ i, 1 ≤ i → i ≤ 3 → memory (ptr + i) ≠ callq

section

variable {m : Loaded} {symbols : Symbols} {level : BitVec 32}

/-! ## One round -/

theorem hookPtr_unchanged {ptr : Nat} {image : Image}
    (calm : ¬ Redirected m symbols level image.memory ptr) :
    (hookPtr m.getPte symbols m.own level ptr image).memory = image.memory := by
  rw [hookPtr_memory]
  split
  · rename_i new pte redirects found
    have same : new = displacement image.memory ptr := by
      by_contra differs
      exact calm ⟨by rw [found]; rfl, new, redirects, differs⟩
    have word := loadWord_lt image.memory (ptr + 1) 4
    rw [same, displacement, BitVec.toNat_ofNat, Nat.mod_eq_of_lt (by omega), storeWord_loadWord]
  · rfl

theorem hookPtr_before {ptr a : Nat} {image : Image} (before : a ≤ ptr) :
    (hookPtr m.getPte symbols m.own level ptr image).memory a = image.memory a := by
  rw [hookPtr_memory]
  split
  · exact storeWord_frame _ _ _ _ _ (by omega)
  · rfl

theorem hookPtr_other {ptr : Nat} {image : Image} (other : image.memory ptr ≠ callq) :
    hookPtr m.getPte symbols m.own level ptr image = image := if_neg other

theorem hookPtr_changes {ptr : Nat} {image : Image}
    (redirected : Redirected m symbols level image.memory ptr) :
    ∃ i, 1 ≤ i ∧ i ≤ 4 ∧
      (hookPtr m.getPte symbols m.own level ptr image).memory (ptr + i) ≠ image.memory (ptr + i) ∧
      ∀ k < i, (hookPtr m.getPte symbols m.own level ptr image).memory (ptr + k) =
        image.memory (ptr + k) := by
  obtain ⟨found, new, redirects, differs⟩ := redirected
  obtain ⟨pte, page⟩ := Option.isSome_iff_exists.mp found
  have stores : (hookPtr m.getPte symbols m.own level ptr image).memory =
      storeWord image.memory (ptr + 1) 4 new.toNat := by
    rw [hookPtr_memory, redirects, page]
  -- a store that changed no byte would have stored the displacement that was there
  have changes : ∃ i, (hookPtr m.getPte symbols m.own level ptr image).memory (ptr + i) ≠
      image.memory (ptr + i) := by
    by_contra nowhere
    push Not at nowhere
    apply differs
    have loaded : loadWord (storeWord image.memory (ptr + 1) 4 new.toNat) (ptr + 1) 4 =
        loadWord image.memory (ptr + 1) 4 := by
      refine loadWord_congr fun a low _ => ?_
      rw [← stores, show a = ptr + (a - ptr) by omega, nowhere]
    rw [loadWord_storeWord, Nat.mod_eq_of_lt (show new.toNat < 256 ^ 4 from new.isLt)] at loaded
    rw [displacement, ← loaded, BitVec.ofNat_toNat, BitVec.setWidth_eq]
  obtain ⟨i, changed, first⟩ : ∃ i, (hookPtr m.getPte symbols m.own level ptr image).memory (ptr + i) ≠
      image.memory (ptr + i) ∧ ∀ k < i,
        ¬ (hookPtr m.getPte symbols m.own level ptr image).memory (ptr + k) ≠ image.memory (ptr + k) :=
    ⟨Nat.find changes, Nat.find_spec changes, fun k => Nat.find_min changes⟩
  refine ⟨i, ?_, ?_, changed, fun k below => not_not.mp (first k below)⟩
  · by_contra start
    exact changed (hookPtr_before (by omega))
  · by_contra far
    exact changed (by rw [stores, storeWord_frame _ _ _ _ _ (by omega)])

/-! ## The scan -/

theorem hookLoop_unchanged {count ptr : Nat} {image : Image}
    (calm : ∀ p, ptr ≤ p → p < ptr + count → ¬ Redirected m symbols level image.memory p) :
    (hookLoop m.getPte symbols m.own level count ptr image).memory = image.memory := by
  induction count generalizing ptr image with
  | zero => rfl
  | succ count ih =>
    have same := hookPtr_unchanged (calm ptr (Nat.le_refl _) (by omega))
    rw [hookLoop, ih, same]
    intro p low high
    rw [same]
    exact calm p (by omega) (by omega)

theorem hookLoop_keeps {count ptr a : Nat} {image : Image}
    (plain : ∀ p, ptr ≤ p → p < a → image.memory p ≠ callq) :
    (hookLoop m.getPte symbols m.own level count ptr image).memory a = image.memory a := by
  induction count generalizing ptr image with
  | zero => rfl
  | succ count ih =>
    by_cases before : ptr < a
    · rw [hookLoop, hookPtr_other (plain ptr (Nat.le_refl _) before)]
      exact ih fun p low high => plain p (by omega) high
    · rw [hookLoop, ih fun p low high => absurd high (by omega), hookPtr_before (by omega)]

/-- If some call is redirected, and the first that is is plain, a byte is changed for good. -/
theorem hookLoop_changes {count ptr : Nat} {image : Image} (within : ptr + count ≤ symbols.driverBottom)
    (plain : ∀ p, ptr ≤ p → p < ptr + count → Redirected m symbols level image.memory p →
      (∀ q, ptr ≤ q → q < p → ¬ Redirected m symbols level image.memory q) →
      Plain symbols image.memory p)
    (some : ∃ p, ptr ≤ p ∧ p < ptr + count ∧ Redirected m symbols level image.memory p) :
    ∃ a, ptr ≤ a ∧ a < symbols.driverBottom ∧
      (hookLoop m.getPte symbols m.own level count ptr image).memory a ≠ image.memory a := by
  induction count generalizing ptr image with
  | zero =>
    obtain ⟨p, low, high, -⟩ := some
    omega
  | succ count ih =>
    by_cases here : Redirected m symbols level image.memory ptr
    · obtain ⟨room, noCall⟩ := plain ptr (Nat.le_refl _) (by omega) here
        fun q low high => absurd high (by omega)
      -- the first byte that changes has no call in front of it that could write it again
      obtain ⟨i, low, high, changed, first⟩ := hookPtr_changes here
      refine ⟨ptr + i, by omega, by omega, ?_⟩
      rw [hookLoop, hookLoop_keeps fun p after before => ?_]
      · exact changed
      · obtain ⟨k, rfl⟩ : ∃ k, p = ptr + k := ⟨p - ptr, by omega⟩
        rw [first k (by omega)]
        exact noCall k (by omega) (by omega)
    · have same := hookPtr_unchanged here
      obtain ⟨p, low, high, redirected⟩ := some
      have later : p ≠ ptr := by
        rintro rfl
        exact here redirected
      -- this round changes nothing, so the first call after it is the first of all
      have plain' : ∀ q, ptr + 1 ≤ q → q < ptr + 1 + count →
          Redirected m symbols level image.memory q →
          (∀ r, ptr + 1 ≤ r → r < q → ¬ Redirected m symbols level image.memory r) →
          Plain symbols image.memory q := by
        intro q after before redirects first
        refine plain q (by omega) (by omega) redirects fun r low below => ?_
        by_cases start : r = ptr
        · exact start ▸ here
        · exact first r (by omega) below
      rw [← same] at plain' redirected
      obtain ⟨a, above, below, changed⟩ :=
        ih (by omega) plain' ⟨p, by omega, by omega, redirected⟩
      rw [same] at changed
      exact ⟨a, by omega, below, changed⟩

theorem hookIxgbe_ok {image hooked : Image}
    (succeeds : hookIxgbe m.getPte symbols m.own level image = some hooked) :
    hooked = hookLoop m.getPte symbols m.own level (symbols.driverBottom - symbols.driverTop)
      symbols.driverTop image := by
  unfold hookIxgbe at succeeds
  split at succeeds
  · cases succeeds
  split at succeeds
  · cases succeeds
  split at succeeds
  · cases succeeds
  exact (Option.some.inj succeeds).symm

end

theorem unloaded_image {m : Loaded} {params : Params} {outcome : Outcome} {symbols : Symbols}
    {w loaded unloaded : World} (enabled : params.hookDriver ≠ 0#32)
    (table : outcome.table = some symbols)
    (loads : genpipeInit m params outcome w = .ok (0, loaded))
    (unloads : genpipeCleanup m params loaded = .ok unloaded) :
    unloaded.image = hookLoop m.getPte symbols m.own params.hookDriver
      (symbols.driverBottom - symbols.driverTop) symbols.driverTop w.image := by
  obtain ⟨found, image, table', hooked, finishes⟩ := genpipeInit_ok loads
  obtain rfl : found = symbols := Option.some.inj (table'.symm.trans table)
  have positive : 0#32 < params.hookDriver := by
    rw [BitVec.lt_def, BitVec.toNat_ofNat, Nat.zero_mod, Nat.pos_iff_ne_zero, ne_eq]
    exact fun zero => enabled (BitVec.eq_of_toNat_eq zero)
  rw [if_pos positive] at hooked
  rw [(genpipeCleanup_ok unloads).1, (finishInit_ok finishes).1, ← hookIxgbe_ok hooked]
  rfl

/-- After a successful load with the driver hooked and an unload, the driver's code is as it
    was if no call in it was redirected; and only then, as long as the first call that is
    redirected ends in the range and is not overlapped by another. -/
theorem driver_restored_iff {m : Loaded} {params : Params} {outcome : Outcome} {symbols : Symbols}
    {w loaded unloaded : World} (enabled : params.hookDriver ≠ 0#32)
    (table : outcome.table = some symbols)
    (loads : genpipeInit m params outcome w = .ok (0, loaded))
    (unloads : genpipeCleanup m params loaded = .ok unloaded) :
    let calm := ∀ p, symbols.driverTop ≤ p → p < symbols.driverBottom →
      ¬ Redirected m symbols params.hookDriver w.image.memory p
    let restored := ∀ a, symbols.driverTop ≤ a → a < symbols.driverBottom →
      unloaded.image.memory a = w.image.memory a
    (calm → restored) ∧
      ((∀ p, symbols.driverTop ≤ p → p < symbols.driverBottom →
        Redirected m symbols params.hookDriver w.image.memory p →
        (∀ q, symbols.driverTop ≤ q → q < p →
          ¬ Redirected m symbols params.hookDriver w.image.memory q) →
        Plain symbols w.image.memory p) → (restored ↔ calm)) := by
  intro calm restored
  have scanned := unloaded_image enabled table loads unloads
  have keeps : calm → restored := by
    intro calm a _ _
    rw [scanned, hookLoop_unchanged fun p low high => calm p low (by omega)]
  refine ⟨keeps, fun plain => ⟨fun restored p low high redirected => ?_, keeps⟩⟩
  have within : symbols.driverTop + (symbols.driverBottom - symbols.driverTop) ≤ symbols.driverBottom := by
    omega
  obtain ⟨a, above, below, changed⟩ := hookLoop_changes within
    (fun q after before => plain q after (by omega)) ⟨p, low, by omega, redirected⟩
  exact changed (scanned ▸ restored a above below)

/-! ## The smallest drivers -/

theorem sample_loads (code : List Byte) (ptypeAll : List PacketType) :
    ∃ loaded unloaded,
      genpipeInit sampleLoaded { hookDevAddPack := 0#32, hookDriver := 1#32 } sampleOutcome
        (sampleWorld code ptypeAll) = .ok (0, loaded) ∧
      genpipeCleanup sampleLoaded { hookDevAddPack := 0#32, hookDriver := 1#32 } loaded =
        .ok unloaded := by
  have hooked : hookIxgbe sampleLoaded.getPte sampleSymbols sampleLoaded.own 1#32
      (sampleWorld code ptypeAll).image = some (hookLoop sampleLoaded.getPte sampleSymbols
        sampleLoaded.own 1#32 5 sampleSymbols.driverTop (sampleWorld code ptypeAll).image) := rfl
  have loads : ∃ loaded, genpipeInit sampleLoaded { hookDevAddPack := 0#32, hookDriver := 1#32 }
      sampleOutcome (sampleWorld code ptypeAll) = .ok (0, loaded) :=
    genpipeInit_succeeds (by decide) (by decide) (by decide) rfl hooked rfl (by decide)
  obtain ⟨loaded, loads⟩ := loads
  exact ⟨loaded, _, loads, rfl⟩

/-- One call of `netif_rx`. -/
def oneCall : List Byte := [0xe8#8, 0xfb#8, 0x03#8, 0x50#8, 0xe1#8]

theorem driver_restored_sample :
    let w := sampleWorld oneCall []
    let calm := ∀ p, sampleSymbols.driverTop ≤ p → p < sampleSymbols.driverBottom →
      ¬ Redirected sampleLoaded sampleSymbols 1#32 w.image.memory p
    Redirected sampleLoaded sampleSymbols 1#32 w.image.memory sampleSymbols.driverTop ∧
      ∃ unloaded : World,
        let restored := ∀ a, sampleSymbols.driverTop ≤ a → a < sampleSymbols.driverBottom →
          unloaded.image.memory a = w.image.memory a
        (calm → restored) ∧ (restored ↔ calm) := by
  intro w calm
  obtain ⟨loaded, unloaded, loads, unloads⟩ := sample_loads oneCall []
  have call : Redirected sampleLoaded sampleSymbols 1#32 w.image.memory sampleSymbols.driverTop :=
    ⟨rfl, 0x001003fb#32, by decide, by decide⟩
  have plain : Plain sampleSymbols w.image.memory sampleSymbols.driverTop := by
    have bytes : ∀ i < 4, 1 ≤ i → w.image.memory (sampleSymbols.driverTop + i) ≠ callq := by decide
    exact ⟨by decide, fun i low high => bytes i (by omega) low⟩
  obtain ⟨enough, exact⟩ := driver_restored_iff (by decide) rfl loads unloads
  refine ⟨call, unloaded, enough, exact fun p low _ _ first => ?_⟩
  -- the call is the first that is redirected
  obtain rfl : p = sampleSymbols.driverTop := by
    by_contra other
    exact first sampleSymbols.driverTop (Nat.le_refl _) (by omega) call
  exact plain

/-- The module with its default parameters. -/
theorem driver_left_patched :
    let w := sampleWorld oneCall []
    ∃ loaded unloaded,
      genpipeInit sampleLoaded { hookDevAddPack := 0#32, hookDriver := 1#32 } sampleOutcome w =
        .ok (0, loaded) ∧
      genpipeCleanup sampleLoaded { hookDevAddPack := 0#32, hookDriver := 1#32 } loaded =
        .ok unloaded ∧
      ¬ ∀ a, sampleSymbols.driverTop ≤ a → a < sampleSymbols.driverBottom →
        unloaded.image.memory a = w.image.memory a := by
  intro w
  obtain ⟨loaded, unloaded, loads, unloads⟩ := sample_loads oneCall []
  refine ⟨loaded, unloaded, loads, unloads, fun restored => ?_⟩
  have kept := restored 0xffffffffa0000003 (by decide) (by decide)
  rw [unloaded_image (by decide) rfl loads unloads] at kept
  exact absurd kept (by decide)

end TestPrograms.Genpipe
