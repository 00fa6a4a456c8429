import TestPrograms.Genpipe.DriverRestored

/-! # The calls that are redirected

The scan does not step over a displacement it has written, so it may find a call in one.
While it meets none, the image is at every position the original with just its calls of
hooked functions redirected.
-/

namespace TestPrograms.Genpipe

open TestPrograms.Foundations
open TestPrograms.Foundations.Memory

/-- Where the processor goes on with a `callq` at `ptr`. -/
def callTarget (memory : Memory) (ptr : Nat) : Addr :=
  BitVec.ofNat 64 ptr + 5#64 + (displacement memory ptr).signExtend 64

/-- A call of a function that is hooked at the level. -/
def Site (m : Loaded) (symbols : Symbols) (level : BitVec 32) (memory : Memory) (ptr : Nat) : Prop :=
  memory ptr = callq ∧ ∃ hook ∈ hooks symbols m.own level, callTarget memory ptr = hook.1

instance (m : Loaded) (symbols : Symbols) (level : BitVec 32) (memory : Memory) (ptr : Nat) :
    Decidable (Site m symbols level memory ptr) :=
  inferInstanceAs (Decidable (_ ∧ _))

/-- The original image with its calls of hooked functions in the first `count` bytes
    redirected, and nothing else. -/
def patched (m : Loaded) (symbols : Symbols) (level : BitVec 32) (memory : Memory) : Nat → Memory
  | 0 => memory
  | count + 1 =>
    let before := patched m symbols level memory count
    let ptr := symbols.driverTop + count
    if Site m symbols level memory ptr then
      match redirection symbols m.own level memory ptr with
      | some new => storeWord before (ptr + 1) 4 new.toNat
      | none => before
    else before

def InDriver (symbols : Symbols) (ptr : Nat) : Prop :=
  symbols.driverTop ≤ ptr ∧ ptr < symbols.driverBottom

/-- The scan takes a position for a call to redirect that was no such call to begin with. -/
def Stray (m : Loaded) (symbols : Symbols) (level : BitVec 32) (memory : Memory) (ptr : Nat) : Prop :=
  InDriver symbols ptr ∧ ¬ Site m symbols level memory ptr ∧
    Redirected m symbols level (patched m symbols level memory (ptr - symbols.driverTop)) ptr

/-- The displacement written reaches the replacement of every hooked function called at `ptr`. -/
def Reaches (m : Loaded) (symbols : Symbols) (level : BitVec 32) (memory : Memory) (ptr : Nat) : Prop :=
  ∀ hook ∈ hooks symbols m.own level, callTarget memory ptr = hook.1 →
    ∃ new, redirection symbols m.own level memory ptr = some new ∧
      BitVec.ofNat 64 ptr + 5#64 + new.signExtend 64 = hook.2

/-- The calls of hooked functions, and only they, are redirected. -/
structure Exact (m : Loaded) (symbols : Symbols) (level : BitVec 32) (memory hooked : Memory) : Prop where
  redirected : ∀ ptr, InDriver symbols ptr → memory ptr = callq → ∀ hook ∈ hooks symbols m.own level,
    callTarget memory ptr = hook.1 → hooked ptr = callq ∧ callTarget hooked ptr = hook.2
  untouched : ∀ a, (∀ ptr, InDriver symbols ptr → Site m symbols level memory ptr →
    ¬ (ptr + 1 ≤ a ∧ a ≤ ptr + 4)) → hooked a = memory a

/-! ## Call targets -/

theorem setWidth_signExtend (x : BitVec 32) : (x.signExtend 64).setWidth 32 = x := by
  apply BitVec.eq_of_getLsbD_eq
  intro i inside
  simp only [BitVec.getLsbD_setWidth, BitVec.getLsbD_signExtend, inside, show i < 64 by omega,
    decide_true, Bool.true_and, if_true]

theorem setWidth_afterCall (ptr : Nat) : (BitVec.ofNat 64 ptr + 5#64).setWidth 32 = afterCall ptr := by
  apply BitVec.eq_of_toNat_eq
  simp only [afterCall, BitVec.toNat_setWidth, BitVec.toNat_add, BitVec.toNat_ofNat]
  omega

theorem setWidth_call (ptr : Nat) (disp : BitVec 32) :
    (BitVec.ofNat 64 ptr + 5#64 + disp.signExtend 64).setWidth 32 = afterCall ptr + disp := by
  rw [BitVec.setWidth_add _ _ (by decide), setWidth_afterCall, setWidth_signExtend]

theorem setWidth_callTarget (memory : Memory) (ptr : Nat) :
    (callTarget memory ptr).setWidth 32 = afterCall ptr + displacement memory ptr :=
  setWidth_call ptr _

theorem displacement_congr {left right : Memory} {ptr : Nat}
    (same : ∀ i, 1 ≤ i → i ≤ 4 → left (ptr + i) = right (ptr + i)) :
    displacement left ptr = displacement right ptr := by
  have words : loadWord left (ptr + 1) 4 = loadWord right (ptr + 1) 4 :=
    loadWord_congr fun a low high => by
      have byte := same (a - ptr) (by omega) (by omega)
      rwa [show ptr + (a - ptr) = a by omega] at byte
  rw [displacement, words, displacement]

theorem displacement_storeWord (memory : Memory) (ptr : Nat) (new : BitVec 32) :
    displacement (storeWord memory (ptr + 1) 4 new.toNat) ptr = new := by
  rw [displacement, loadWord_storeWord, Nat.mod_eq_of_lt (show new.toNat < 256 ^ 4 from new.isLt),
    BitVec.ofNat_toNat, BitVec.setWidth_eq]

theorem eq_of_displacement {left right : Memory} {ptr : Nat}
    (same : displacement left ptr = displacement right ptr) {i : Nat} (low : 1 ≤ i) (high : i ≤ 4) :
    left (ptr + i) = right (ptr + i) := by
  have words : loadWord left (ptr + 1) 4 = loadWord right (ptr + 1) 4 := by
    have bound := loadWord_lt left (ptr + 1) 4
    have bound' := loadWord_lt right (ptr + 1) 4
    have values := congrArg BitVec.toNat same
    rwa [displacement, displacement, BitVec.toNat_ofNat, BitVec.toNat_ofNat,
      Nat.mod_eq_of_lt (by omega), Nat.mod_eq_of_lt (by omega)] at values
  rw [← storeWord_loadWord left (ptr + 1) 4, ← storeWord_loadWord right (ptr + 1) 4, words, storeWord,
    storeWord, storeBytes_apply, storeBytes_apply, dif_pos (by rw [wordBytes_length]; omega),
    dif_pos (by rw [wordBytes_length]; omega)]

theorem eq_of_halves {x y : Addr} (low : x.setWidth 32 = y.setWidth 32) (high : x >>> 32 = y >>> 32) :
    x = y := by
  have lows := congrArg BitVec.toNat low
  have highs := congrArg BitVec.toNat high
  rw [BitVec.toNat_setWidth, BitVec.toNat_setWidth] at lows
  rw [BitVec.toNat_ushiftRight, BitVec.toNat_ushiftRight, Nat.shiftRight_eq_div_pow,
    Nat.shiftRight_eq_div_pow] at highs
  exact BitVec.eq_of_toNat_eq (by omega)

section

variable {m : Loaded} {symbols : Symbols} {level : BitVec 32}

theorem redirection_congr {left right : Memory} {ptr : Nat}
    (same : ∀ i, i ≤ 4 → left (ptr + i) = right (ptr + i)) :
    redirection symbols m.own level left ptr = redirection symbols m.own level right ptr := by
  have call : left ptr = right ptr := same 0 (by decide)
  rw [redirection, redirection, call, displacement_congr fun i _ high => same i high]

theorem Site.redirection {memory : Memory} {ptr : Nat} (site : Site m symbols level memory ptr) :
    ∃ new, redirection symbols m.own level memory ptr = some new := by
  obtain ⟨call, hook, member, leads⟩ := site
  have matching : hook ∈ (hooks symbols m.own level).filter fun hook =>
      afterCall ptr + displacement memory ptr = hook.1.setWidth 32 := by
    rw [List.mem_filter, decide_eq_true_eq, ← setWidth_callTarget, leads]
    exact ⟨member, rfl⟩
  cases last : ((hooks symbols m.own level).filter fun hook =>
      afterCall ptr + displacement memory ptr = hook.1.setWidth 32).getLast? with
  | none => rw [List.getLast?_eq_none_iff.mp last] at matching; cases matching
  | some chosen => exact ⟨_, by rw [Genpipe.redirection, if_pos call, last]; rfl⟩

/-! ## The image with its calls redirected -/

theorem patched_frame {memory : Memory} {count a : Nat}
    (outside : ∀ k < count, Site m symbols level memory (symbols.driverTop + k) →
      ¬ (symbols.driverTop + k + 1 ≤ a ∧ a ≤ symbols.driverTop + k + 4)) :
    patched m symbols level memory count a = memory a := by
  induction count with
  | zero => rfl
  | succ count ih =>
    have before := ih fun k below => outside k (by omega)
    simp only [patched]
    split
    · rename_i site
      have away := outside count (by omega) site
      obtain ⟨new, redirects⟩ := site.redirection
      simp only [redirects]
      rw [storeWord_frame _ _ _ _ _ (by omega), before]
    · exact before

/-- The calls of hooked functions do not overlap. -/
def Apart (m : Loaded) (symbols : Symbols) (level : BitVec 32) (memory : Memory) : Prop :=
  ∀ p q, InDriver symbols p → InDriver symbols q → Site m symbols level memory p →
    Site m symbols level memory q → p < q → p + 5 ≤ q

theorem inDriver_add {k : Nat} (below : k < symbols.driverBottom - symbols.driverTop) :
    InDriver symbols (symbols.driverTop + k) := ⟨Nat.le_add_right _ _, by omega⟩

theorem patched_site {memory : Memory} (apart : Apart m symbols level memory) {count k : Nat}
    (within : count ≤ symbols.driverBottom - symbols.driverTop)
    (low : k < symbols.driverBottom - symbols.driverTop)
    (site : Site m symbols level memory (symbols.driverTop + k)) {i : Nat} (inside : i ≤ 4)
    (fresh : i = 0 ∨ count ≤ k) :
    patched m symbols level memory count (symbols.driverTop + k + i) =
      memory (symbols.driverTop + k + i) := by
  apply patched_frame
  intro j below other
  rcases Nat.lt_trichotomy j k with before | same | after
  · have room := apart _ _ (inDriver_add (by omega)) (inDriver_add low) other site (by omega)
    omega
  · omega
  · omega

theorem displacement_patched {memory : Memory} (apart : Apart m symbols level memory) {count k : Nat}
    (within : count ≤ symbols.driverBottom - symbols.driverTop) (low : k < count)
    (site : Site m symbols level memory (symbols.driverTop + k)) {new : BitVec 32}
    (redirects : redirection symbols m.own level memory (symbols.driverTop + k) = some new) :
    displacement (patched m symbols level memory count) (symbols.driverTop + k) = new := by
  induction count with
  | zero => cases low
  | succ count ih =>
    by_cases here : k = count
    · subst here
      simp only [patched, site, if_true, redirects]
      exact displacement_storeWord _ _ _
    · have before := ih (by omega) (by omega)
      simp only [patched]
      split
      · rename_i other
        have room := apart _ _ (inDriver_add (by omega)) (inDriver_add (by omega)) site other (by omega)
        obtain ⟨written, redirects'⟩ := other.redirection
        simp only [redirects']
        rw [displacement_congr fun i _ _ => storeWord_frame _ _ _ _ _ (by omega), before]
      · exact before

/-! ## The scan -/

theorem hookLoop_add (first second ptr : Nat) (image : Image) :
    hookLoop m.getPte symbols m.own level (first + second) ptr image =
      hookLoop m.getPte symbols m.own level second (ptr + first)
        (hookLoop m.getPte symbols m.own level first ptr image) := by
  induction first generalizing ptr image with
  | zero => rw [Nat.zero_add]; rfl
  | succ first ih =>
    rw [Nat.succ_add, hookLoop, ih, hookLoop, Nat.add_assoc ptr 1 first, Nat.add_comm 1 first]

theorem hookLoop_at {count k : Nat} (below : k < count) (ptr : Nat) (image : Image) :
    hookLoop m.getPte symbols m.own level count ptr image =
      hookLoop m.getPte symbols m.own level (count - k - 1) (ptr + k + 1)
        (hookPtr m.getPte symbols m.own level (ptr + k)
          (hookLoop m.getPte symbols m.own level k ptr image)) := by
  have length : count = k + (1 + (count - k - 1)) := by omega
  rw [length, hookLoop_add, hookLoop_add, ← length]
  rfl

theorem hookPtr_patched {memory : Memory} (pages : ∀ a, (m.getPte a).isSome)
    (apart : Apart m symbols level memory) {count : Nat}
    (within : count < symbols.driverBottom - symbols.driverTop)
    (calm : ¬ Stray m symbols level memory (symbols.driverTop + count)) {image : Image}
    (same : image.memory = patched m symbols level memory count) :
    (hookPtr m.getPte symbols m.own level (symbols.driverTop + count) image).memory =
      patched m symbols level memory (count + 1) := by
  by_cases site : Site m symbols level memory (symbols.driverTop + count)
  · -- what a call of a hooked function reads has not been written yet
    obtain ⟨new, redirects⟩ := site.redirection
    have still : redirection symbols m.own level image.memory (symbols.driverTop + count) = some new := by
      rw [same, ← redirects]
      exact redirection_congr fun i small =>
        patched_site apart (by omega) within site small (.inr (Nat.le_refl _))
    obtain ⟨pte, page⟩ := Option.isSome_iff_exists.mp (pages (symbols.driverTop + count))
    rw [hookPtr_memory, still, page]
    simp only [patched, site, if_true, redirects, same]
  · have quiet : ¬ Redirected m symbols level image.memory (symbols.driverTop + count) := by
      intro redirected
      refine calm ⟨inDriver_add within, site, ?_⟩
      rwa [Nat.add_sub_cancel_left, ← same]
    simp only [hookPtr_unchanged quiet, same, patched, site, if_false]

/-- Up to the first stray call the scan redirects the original calls only. -/
theorem hookLoop_patched {image : Image} (pages : ∀ a, (m.getPte a).isSome)
    (apart : Apart m symbols level image.memory) {count : Nat}
    (within : count ≤ symbols.driverBottom - symbols.driverTop)
    (calm : ∀ k < count, ¬ Stray m symbols level image.memory (symbols.driverTop + k)) :
    (hookLoop m.getPte symbols m.own level count symbols.driverTop image).memory =
      patched m symbols level image.memory count := by
  induction count with
  | zero => rfl
  | succ count ih =>
    have before := ih (by omega) fun k below => calm k (by omega)
    rw [hookLoop_add]
    exact hookPtr_patched pages apart (by omega) (calm count (by omega)) before

theorem exact_of_calm {memory : Memory} (apart : Apart m symbols level memory)
    (reaches : ∀ ptr, InDriver symbols ptr → memory ptr = callq → Reaches m symbols level memory ptr) :
    Exact m symbols level memory
      (patched m symbols level memory (symbols.driverBottom - symbols.driverTop)) := by
  constructor
  · rintro ptr ⟨low, high⟩ call hook member leads
    obtain ⟨k, rfl⟩ : ∃ k, ptr = symbols.driverTop + k := ⟨ptr - symbols.driverTop, by omega⟩
    have site : Site m symbols level memory (symbols.driverTop + k) := ⟨call, hook, member, leads⟩
    have below : k < symbols.driverBottom - symbols.driverTop := by omega
    obtain ⟨new, redirects, arrives⟩ := reaches _ ⟨low, high⟩ call hook member leads
    constructor
    · exact (patched_site apart (Nat.le_refl _) below site (Nat.zero_le 4) (.inl rfl)).trans call
    · rw [callTarget, displacement_patched apart (Nat.le_refl _) below site redirects, arrives]
  · intro a away
    exact patched_frame fun k below site => away _ (inDriver_add below) site

/-! ## When exactly -/

/-- Where the calls lead to their replacements, they have the displacement the scan writes. -/
theorem Exact.displacement {memory hooked : Memory} (exact : Exact m symbols level memory hooked)
    (upper : ∃ high, ∀ hook ∈ hooks symbols m.own level, hook.1 >>> 32 = high) {ptr : Nat}
    (inside : InDriver symbols ptr) (site : Site m symbols level memory ptr) :
    ∃ new, redirection symbols m.own level memory ptr = some new ∧
      Genpipe.displacement hooked ptr = new := by
  obtain ⟨call, hook, member, leads⟩ := site
  obtain ⟨new, redirects⟩ := Site.redirection ⟨call, hook, member, leads⟩
  refine ⟨new, redirects, ?_⟩
  rw [Genpipe.redirection, if_pos call] at redirects
  obtain ⟨chosen, last, rfl⟩ := Option.map_eq_some_iff.mp redirects
  obtain ⟨among, matching⟩ := List.mem_filter.mp (List.mem_of_getLast? last)
  -- the hook chosen by the low half is one for the function called
  have chosenLeads : callTarget memory ptr = chosen.1 := by
    obtain ⟨high, same⟩ := upper
    apply eq_of_halves
    · rw [setWidth_callTarget]
      exact of_decide_eq_true matching
    · rw [leads, same hook member, same chosen among]
  have arrives := (exact.redirected ptr inside call chosen among chosenLeads).2
  have low := setWidth_callTarget hooked ptr
  rw [arrives] at low
  rw [low, BitVec.add_comm, BitVec.add_sub_cancel]

theorem Exact.reaches {memory hooked : Memory} (exact : Exact m symbols level memory hooked)
    (upper : ∃ high, ∀ hook ∈ hooks symbols m.own level, hook.1 >>> 32 = high) {ptr : Nat}
    (inside : InDriver symbols ptr) (call : memory ptr = callq) :
    Reaches m symbols level memory ptr := by
  intro hook member leads
  obtain ⟨new, redirects, written⟩ := exact.displacement upper inside ⟨call, hook, member, leads⟩
  refine ⟨new, redirects, ?_⟩
  rw [← written]
  exact (exact.redirected ptr inside call hook member leads).2

/-- A stray call with no call overlapping it leaves one of its displacement's bytes other than
    the calls before it would have it. -/
theorem hookLoop_stray {image : Image} (pages : ∀ a, (m.getPte a).isSome)
    (apart : Apart m symbols level image.memory) {k : Nat}
    (stray : Stray m symbols level image.memory (symbols.driverTop + k))
    (first : ∀ j < k, ¬ Stray m symbols level image.memory (symbols.driverTop + j))
    (plain : ∀ i, 1 ≤ i → i ≤ 3 →
      patched m symbols level image.memory k (symbols.driverTop + k + i) ≠ callq) :
    ∃ i, 1 ≤ i ∧ i ≤ 4 ∧
      (hookLoop m.getPte symbols m.own level (symbols.driverBottom - symbols.driverTop)
          symbols.driverTop image).memory (symbols.driverTop + k + i) ≠
        patched m symbols level image.memory k (symbols.driverTop + k + i) := by
  obtain ⟨inside, -, redirected⟩ := stray
  rw [Nat.add_sub_cancel_left] at redirected
  have below : k < symbols.driverBottom - symbols.driverTop := by
    have high := inside.2
    omega
  have scanned := hookLoop_patched pages apart below.le first
  rw [← scanned] at redirected
  obtain ⟨i, low, high, changed, unchanged⟩ := hookPtr_changes redirected
  refine ⟨i, low, high, ?_⟩
  -- the first byte that changes has no call in front of it that could write it again
  rw [hookLoop_at below, hookLoop_keeps fun p after before => ?_, ← scanned]
  · exact changed
  · obtain ⟨j, rfl⟩ : ∃ j, p = symbols.driverTop + k + j := ⟨p - (symbols.driverTop + k), by omega⟩
    rw [unchanged j (by omega), scanned]
    exact plain j (by omega) (by omega)

/-- A stray call with no call overlapping it leaves a byte wrong. -/
theorem not_exact_of_stray {image : Image} (pages : ∀ a, (m.getPte a).isSome)
    (apart : Apart m symbols level image.memory)
    (upper : ∃ high, ∀ hook ∈ hooks symbols m.own level, hook.1 >>> 32 = high) {k : Nat}
    (stray : Stray m symbols level image.memory (symbols.driverTop + k))
    (first : ∀ j < k, ¬ Stray m symbols level image.memory (symbols.driverTop + j))
    (plain : ∀ i, 1 ≤ i → i ≤ 3 →
      patched m symbols level image.memory k (symbols.driverTop + k + i) ≠ callq) :
    ¬ Exact m symbols level image.memory (hookLoop m.getPte symbols m.own level
      (symbols.driverBottom - symbols.driverTop) symbols.driverTop image).memory := by
  intro exact
  have notSite := stray.2.1
  have below : k < symbols.driverBottom - symbols.driverTop := by
    have high := stray.1.2
    omega
  obtain ⟨i, low, high, kept⟩ := hookLoop_stray pages apart stray first plain
  by_cases covered : ∃ j < k, Site m symbols level image.memory (symbols.driverTop + j) ∧
      symbols.driverTop + j + 1 ≤ symbols.driverTop + k + i ∧
      symbols.driverTop + k + i ≤ symbols.driverTop + j + 4
  · -- in the displacement written for an original call, which then does not lead there
    obtain ⟨j, before, site, start, stop⟩ := covered
    obtain ⟨new, redirects, written⟩ := exact.displacement upper (inDriver_add (by omega)) site
    have byte := eq_of_displacement (written.trans
      (displacement_patched apart below.le before site redirects).symm)
      (show 1 ≤ k + i - j by omega) (by omega)
    rw [show symbols.driverTop + j + (k + i - j) = symbols.driverTop + k + i by omega] at byte
    exact kept byte
  · -- outside all of them
    push Not at covered
    refine kept ?_
    rw [patched_frame fun j before site => by
      have away := covered j before site
      omega]
    refine exact.untouched _ fun ptr within site around => ?_
    obtain ⟨j, rfl⟩ : ∃ j, ptr = symbols.driverTop + j :=
      ⟨ptr - symbols.driverTop, by have := within.1; omega⟩
    rcases Nat.lt_trichotomy j k with before | same | after
    · have away := covered j before site
      omega
    · exact notSite (same ▸ site)
    · refine plain (j - k) (by omega) (by omega) ?_
      rw [show symbols.driverTop + k + (j - k) = symbols.driverTop + j + 0 by omega,
        patched_site apart below.le (by have := within.2; omega) site (Nat.zero_le 4) (.inl rfl)]
      exact site.1

/-- The scan redirects exactly the original calls if it meets no stray one and every
    replacement is within reach of the calls it is for; and only then, as long as no call
    overlaps the first stray one. -/
theorem hook_exact_iff {image hooked : Image} (pages : ∀ a, (m.getPte a).isSome)
    (upper : ∃ high, ∀ hook ∈ hooks symbols m.own level, hook.1 >>> 32 = high)
    (apart : Apart m symbols level image.memory)
    (returns : hookIxgbe m.getPte symbols m.own level image = some hooked) :
    let calm := ∀ ptr, ¬ Stray m symbols level image.memory ptr
    let reach := ∀ ptr, InDriver symbols ptr → image.memory ptr = callq →
      Reaches m symbols level image.memory ptr
    (calm ∧ reach → Exact m symbols level image.memory hooked.memory) ∧
      ((∀ ptr, Stray m symbols level image.memory ptr →
        (∀ q < ptr, ¬ Stray m symbols level image.memory q) → ∀ i, 1 ≤ i → i ≤ 3 →
          patched m symbols level image.memory (ptr - symbols.driverTop) (ptr + i) ≠ callq) →
        (Exact m symbols level image.memory hooked.memory ↔ calm ∧ reach)) := by
  intro calm reach
  rw [hookIxgbe_ok returns]
  have enough : calm ∧ reach → Exact m symbols level image.memory (hookLoop m.getPte symbols m.own
      level (symbols.driverBottom - symbols.driverTop) symbols.driverTop image).memory := by
    rintro ⟨calm, reach⟩
    rw [hookLoop_patched pages apart (Nat.le_refl _) fun k _ => calm _]
    exact exact_of_calm apart reach
  refine ⟨enough, fun plain => ⟨fun exact => ⟨?_, fun ptr inside call => ?_⟩, enough⟩⟩
  · -- the first stray call would show
    by_contra some
    have strays : ∃ ptr, Stray m symbols level image.memory ptr := by
      by_contra none
      exact some fun ptr stray => none ⟨ptr, stray⟩
    obtain ⟨ptr, stray, first⟩ : ∃ ptr, Stray m symbols level image.memory ptr ∧
        ∀ q < ptr, ¬ Stray m symbols level image.memory q := by
      classical exact ⟨Nat.find strays, Nat.find_spec strays, fun q => Nat.find_min strays⟩
    have overlaps := plain ptr stray first
    obtain ⟨k, rfl⟩ : ∃ k, ptr = symbols.driverTop + k :=
      ⟨ptr - symbols.driverTop, by have := stray.1.1; omega⟩
    rw [Nat.add_sub_cancel_left] at overlaps
    exact not_exact_of_stray pages apart upper stray (fun j before => first _ (by omega)) overlaps exact
  · exact exact.reaches upper inside call

end

/-! ## The smallest drivers -/

theorem site_sample {code : List Byte} {level : BitVec 32} {own : Own} {ptr : Nat}
    (inside : InDriver sampleSymbols ptr)
    (site : Site { sampleLoaded with own } sampleSymbols level (sampleWorld code []).image.memory ptr) :
    ∃ k < 5, ptr = sampleSymbols.driverTop + k ∧
      (sampleWorld code []).image.memory (sampleSymbols.driverTop + k) = callq := by
  obtain ⟨k, rfl⟩ : ∃ k, ptr = sampleSymbols.driverTop + k :=
    ⟨ptr - sampleSymbols.driverTop, by have := inside.1; omega⟩
  have high := inside.2
  exact ⟨k, by simp only [sampleSymbols] at high; omega, rfl, site.1⟩

theorem forall_hooks {symbols : Symbols} {own : Own} {level : BitVec 32} {P : Addr × Addr → Prop}
    [DecidablePred P] (all : ((hooks symbols own level).all fun hook => decide (P hook)) = true) :
    ∀ hook ∈ hooks symbols own level, P hook := by
  simpa using all

/-- A module whose replacement of `netif_rx` is reached by the displacement `0xe8000000`. -/
def farLoaded : Loaded :=
  { sampleLoaded with own := { sampleLoaded.own with genpipeNetifRx := 0xffffffff88000005#64 } }

/-- One call of `netif_rx`.  The last byte of its new displacement is a `callq` to
    `napi_gro_receive` with the four bytes behind it, of which the third is changed. -/
theorem stray_call_redirected :
    let image := (sampleWorld [0xe8#8, 0xfb#8, 0x03#8, 0x50#8, 0xe1#8, 0xf7#8, 0x04#8, 0x50#8, 0xe1#8]
      []).image
    ((∀ hook ∈ hooks sampleSymbols farLoaded.own 1#32,
        hook.1 ≠ 0#64 ∧ hook.1 >>> 32 = 0xffffffff#64 ∧ hook.2 >>> 32 = 0xffffffff#64) ∧
      ∀ ptr, InDriver sampleSymbols ptr → ptr / 2 ^ 32 = 0xffffffff) ∧
    (∀ a, (farLoaded.getPte a).isSome) ∧ Apart farLoaded sampleSymbols 1#32 image.memory ∧
    (∀ ptr, InDriver sampleSymbols ptr → image.memory ptr = callq →
      Reaches farLoaded sampleSymbols 1#32 image.memory ptr) ∧
    ∃ hooked, hookIxgbe farLoaded.getPte sampleSymbols farLoaded.own 1#32 image = some hooked ∧
      ¬ Exact farLoaded sampleSymbols 1#32 image.memory hooked.memory := by
  intro image
  have single : ∀ k < 5, image.memory (sampleSymbols.driverTop + k) = callq → k = 0 := by decide
  have site (ptr : Nat) (inside : InDriver sampleSymbols ptr)
      (site : Site farLoaded sampleSymbols 1#32 image.memory ptr) : ptr = sampleSymbols.driverTop := by
    obtain ⟨k, below, rfl, call⟩ := site_sample inside site
    rw [single k below call, Nat.add_zero]
  refine ⟨⟨forall_hooks (by decide), ?_⟩, fun _ => rfl, ?_, ?_, _, rfl, fun exact => ?_⟩
  · rintro ptr ⟨low, high⟩
    simp only [sampleSymbols] at low high
    omega
  · intro p q inP inQ atP atQ before
    rw [site p inP atP, site q inQ atQ] at before
    exact absurd before (Nat.lt_irrefl _)
  · intro ptr inside call hook member leads
    obtain rfl := site ptr inside ⟨call, hook, member, leads⟩
    have reached : ∀ hook ∈ hooks sampleSymbols farLoaded.own 1#32,
        callTarget image.memory sampleSymbols.driverTop = hook.1 →
          BitVec.ofNat 64 sampleSymbols.driverTop + 5#64 + (0xe8000000#32).signExtend 64 = hook.2 :=
      forall_hooks (by decide)
    exact ⟨0xe8000000#32, by decide, reached hook member leads⟩
  · have byte := exact.untouched (sampleSymbols.driverTop + 7) fun ptr inside atPtr around => by
      rw [site ptr inside atPtr] at around
      omega
    exact absurd byte (by decide)

/-- One call of `netif_rx`, whose new displacement has no `callq` in it. -/
theorem hook_exact_sample :
    let image := (sampleWorld oneCall []).image
    Site sampleLoaded sampleSymbols 1#32 image.memory sampleSymbols.driverTop ∧
    ∃ hooked, hookIxgbe sampleLoaded.getPte sampleSymbols sampleLoaded.own 1#32 image = some hooked ∧
      Exact sampleLoaded sampleSymbols 1#32 image.memory hooked.memory := by
  intro image
  have single : ∀ k < 5, image.memory (sampleSymbols.driverTop + k) = callq → k = 0 := by decide
  have only (ptr : Nat) (inside : InDriver sampleSymbols ptr)
      (site : Site sampleLoaded sampleSymbols 1#32 image.memory ptr) : ptr = sampleSymbols.driverTop := by
    obtain ⟨k, below, rfl, call⟩ := site_sample inside site
    rw [single k below call, Nat.add_zero]
  have site : Site sampleLoaded sampleSymbols 1#32 image.memory sampleSymbols.driverTop := by decide
  have apart : Apart sampleLoaded sampleSymbols 1#32 image.memory := by
    intro p q inP inQ atP atQ before
    rw [only p inP atP, only q inQ atQ] at before
    exact absurd before (Nat.lt_irrefl _)
  obtain ⟨enough, -⟩ := hook_exact_iff (fun _ => rfl) ⟨0xffffffff#64, forall_hooks (by decide)⟩ apart rfl
  refine ⟨site, _, rfl, enough ⟨fun ptr stray => ?_, fun ptr inside call hook member leads => ?_⟩⟩
  · obtain ⟨⟨low, high⟩, other, -, new, redirects, -⟩ := stray
    obtain ⟨k, rfl⟩ : ∃ k, ptr = sampleSymbols.driverTop + k := ⟨ptr - sampleSymbols.driverTop, by omega⟩
    have below : k < 5 := by
      simp only [sampleSymbols] at high
      omega
    rw [Nat.add_sub_cancel_left] at redirects
    have call : patched sampleLoaded sampleSymbols 1#32 image.memory k (sampleSymbols.driverTop + k) =
        callq := by
      by_contra none
      rw [redirection, if_neg none] at redirects
      cases redirects
    have first : ∀ k < 5, patched sampleLoaded sampleSymbols 1#32 image.memory k
        (sampleSymbols.driverTop + k) = callq → k = 0 := by decide
    rw [first k below call, Nat.add_zero] at other
    exact other site
  · obtain rfl := only ptr inside ⟨call, hook, member, leads⟩
    have reached : ∀ hook ∈ hooks sampleSymbols sampleLoaded.own 1#32,
        callTarget image.memory sampleSymbols.driverTop = hook.1 →
          BitVec.ofNat 64 sampleSymbols.driverTop + 5#64 + (0x001003fb#32).signExtend 64 = hook.2 :=
      forall_hooks (by decide)
    exact ⟨0x001003fb#32, by decide, reached hook member leads⟩

end TestPrograms.Genpipe
