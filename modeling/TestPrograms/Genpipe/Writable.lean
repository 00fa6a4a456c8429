import TestPrograms.Genpipe.HookedCalls

/-! # Stores to read-only pages

`hook_ixgbe` makes the page of a call's first byte writable and stores to the four after it,
which are on the next page where the call lies across the end of one.
-/

namespace TestPrograms.Genpipe

open TestPrograms.Foundations
open TestPrograms.Foundations.Memory

/-- A store of the displacement behind `ptr`, with the page-table entries as they are then. -/
structure Patch where
  ptr : Nat
  ptes : Nat → BitVec 64

section

variable (getPte : Nat → Option Nat)

/-! ## The stores of the scan -/

def hookSiteStores (original : Addr) (ptr : Nat) (dest : BitVec 32) (image : Image) : List Patch :=
  if afterCall ptr + dest = original.setWidth 32 then
    match getPte ptr with
    | none => []
    | some pte => [{ ptr, ptes := Function.update image.ptes pte (image.ptes pte ||| pageRw) }]
  else []

/-- The stores of the tests on one call. -/
def hookStores (ptr : Nat) (dest : BitVec 32) : List (Addr × Addr) → Image → List Patch
  | [], _ => []
  | hook :: tests, image =>
    hookSiteStores getPte hook.1 ptr dest image ++
      hookStores ptr dest tests (hookSite getPte hook.1 hook.2 ptr dest image)

def hookPtrStores (symbols : Symbols) (own : Own) (level : BitVec 32) (ptr : Nat) (image : Image) :
    List Patch :=
  if image.memory ptr = callq then
    hookStores getPte ptr (displacement image.memory ptr) (hooks symbols own level) image
  else []

def hookLoopStores (symbols : Symbols) (own : Own) (level : BitVec 32) : Nat → Nat → Image → List Patch
  | 0, _, _ => []
  | count + 1, ptr, image =>
    hookPtrStores getPte symbols own level ptr image ++
      hookLoopStores symbols own level count (ptr + 1) (hookPtr getPte symbols own level ptr image)

/-- The symbols without which `hook_ixgbe` returns -1 are there. -/
def Symbols.Found (symbols : Symbols) : Prop :=
  symbols.netifreceiveskb ≠ 0#64 ∧ symbols.ixgbecleanrxirq ≠ 0#64 ∧ symbols.napigroreceive ≠ 0#64 ∧
    symbols.netifrx ≠ 0#64 ∧ symbols.netdevallocskb ≠ 0#64

instance (symbols : Symbols) : Decidable symbols.Found := inferInstanceAs (Decidable (_ ∧ _))

def hookIxgbeStores (symbols : Symbols) (own : Own) (level : BitVec 32) (image : Image) : List Patch :=
  if symbols.Found then
    hookLoopStores getPte symbols own level (symbols.driverBottom - symbols.driverTop)
      symbols.driverTop image
  else []

/-! ## Pages -/

/-- The byte is on a page whose entry allows writes. -/
def Writable (ptes : Nat → BitVec 64) (a : Nat) : Prop := ∃ pte ∈ getPte a, ptes pte &&& pageRw ≠ 0#64

/-- An entry is found for a whole page, and for no other. -/
structure ByPage : Prop where
  same : ∀ a b, a / 4096 = b / 4096 → getPte a = getPte b
  own : ∀ a b pte, getPte a = some pte → getPte b = some pte → a / 4096 = b / 4096

def ReadOnly (image : Image) : Prop := ∀ a pte, getPte a = some pte → image.ptes pte &&& pageRw = 0#64

/-- All four bytes are on writable pages. -/
def Patch.Allowed (patch : Patch) : Prop :=
  ∀ i, 1 ≤ i → i ≤ 4 → Writable getPte patch.ptes (patch.ptr + i)

/-- The scan stores at `ptr`. -/
def Stores (symbols : Symbols) (own : Own) (level : BitVec 32) (memory : Memory) (ptr : Nat) : Prop :=
  (getPte ptr).isSome ∧ (redirection symbols own level memory ptr).isSome

instance (symbols : Symbols) (own : Own) (level : BitVec 32) (memory : Memory) (ptr : Nat) :
    Decidable (Stores getPte symbols own level memory ptr) :=
  inferInstanceAs (Decidable (_ ∧ _))

end

section

variable {getPte : Nat → Option Nat} {symbols : Symbols} {own : Own} {level : BitVec 32}

theorem hookIxgbe_found {image : Image} :
    hookIxgbe getPte symbols own level image =
      if symbols.Found then some (hookLoop getPte symbols own level
        (symbols.driverBottom - symbols.driverTop) symbols.driverTop image)
      else none := by
  unfold hookIxgbe Symbols.Found
  by_cases receive : symbols.netifreceiveskb = 0#64 <;>
    by_cases clean : symbols.ixgbecleanrxirq = 0#64 <;>
    by_cases gro : symbols.napigroreceive = 0#64 <;> by_cases rx : symbols.netifrx = 0#64 <;>
    by_cases alloc : symbols.netdevallocskb = 0#64 <;> simp [receive, clean, gro, rx, alloc]

/-! ## One test -/

theorem set_pageRw (entry : BitVec 64) : (entry ||| pageRw) &&& pageRw ≠ 0#64 := by
  rw [BitVec.and_comm, BitVec.and_or_distrib_left, BitVec.and_self]
  intro zero
  have bit := congrArg (·.getLsbD 1) zero
  simp [pageRw] at bit

theorem clear_pageRw (entry : BitVec 64) : (entry &&& ~~~pageRw) &&& pageRw = 0#64 := by
  rw [BitVec.and_assoc, show ~~~pageRw &&& pageRw = 0#64 by decide, BitVec.and_zero]

theorem readOnly_hookSite {image : Image} (readOnly : ReadOnly getPte image) (original replacement : Addr)
    (ptr : Nat) (dest : BitVec 32) :
    ReadOnly getPte (hookSite getPte original replacement ptr dest image) := by
  unfold hookSite
  split
  · split
    · exact readOnly
    · rename_i entry found
      intro a pte found'
      by_cases here : pte = entry
      · subst here
        simp only [Function.update_self]
        exact clear_pageRw _
      · simp only [Function.update_of_ne here]
        exact readOnly a pte found'
  · exact readOnly

/-- The page that is writable is the one of `ptr` and no other. -/
theorem allowed_iff (pages : ByPage getPte) {image : Image} (readOnly : ReadOnly getPte image)
    {ptr pte : Nat} (found : getPte ptr = some pte) :
    ({ ptr, ptes := Function.update image.ptes pte (image.ptes pte ||| pageRw) } : Patch).Allowed getPte ↔
      ptr % 4096 ≤ 4091 := by
  constructor
  · intro allowed
    obtain ⟨last, found', writable⟩ := allowed 4 (by decide) (by decide)
    by_cases here : last = pte
    · have samePage := pages.own ptr (ptr + 4) pte found (here ▸ found')
      omega
    · dsimp only at writable
      rw [Function.update_of_ne here] at writable
      exact absurd (readOnly _ _ found') writable
  · intro inside i low high
    refine ⟨pte, ?_, ?_⟩
    · rw [pages.same (ptr + i) ptr (by omega)]
      exact found
    · dsimp only
      rw [Function.update_self]
      exact set_pageRw _

/-! ## The whole scan -/

theorem hookStores_allowed_iff (pages : ByPage getPte) {image : Image} (readOnly : ReadOnly getPte image)
    (ptr : Nat) (dest : BitVec 32) (tests : List (Addr × Addr)) :
    (∀ patch ∈ hookStores getPte ptr dest tests image, patch.Allowed getPte) ↔
      ((getPte ptr).isSome → (∃ hook ∈ tests, afterCall ptr + dest = hook.1.setWidth 32) →
        ptr % 4096 ≤ 4091) := by
  induction tests generalizing image with
  | nil => simp [hookStores]
  | cons hook tests ih =>
    rw [hookStores, List.forall_mem_append, ih (readOnly_hookSite readOnly _ _ _ _), hookSiteStores]
    by_cases leads : afterCall ptr + dest = hook.1.setWidth 32
    · rw [if_pos leads]
      cases found : getPte ptr with
      | none => simp
      | some pte =>
        have first : ∃ test ∈ hook :: tests, afterCall ptr + dest = test.1.setWidth 32 :=
          ⟨hook, List.mem_cons_self, leads⟩
        rw [List.forall_mem_singleton, allowed_iff pages readOnly found]
        exact ⟨fun both _ _ => both.1, fun inside => ⟨inside rfl first, fun _ _ => inside rfl first⟩⟩
    · simp [leads]

theorem redirection_isSome_iff (memory : Memory) (ptr : Nat) :
    (redirection symbols own level memory ptr).isSome ↔
      memory ptr = callq ∧ ∃ hook ∈ hooks symbols own level,
        afterCall ptr + displacement memory ptr = hook.1.setWidth 32 := by
  unfold redirection
  split
  · rename_i call
    simp only [Option.isSome_map, List.getLast?_isSome, ne_eq, List.filter_eq_nil_iff, call, true_and]
    simp
  · rename_i other
    simp [other]

theorem readOnly_hookPtr (symbols : Symbols) (own : Own) (level : BitVec 32) {image : Image}
    (readOnly : ReadOnly getPte image) (ptr : Nat) :
    ReadOnly getPte (hookPtr getPte symbols own level ptr image) := by
  by_cases call : image.memory ptr = callq
  · rw [hookPtr_foldl symbols own level ptr call]
    exact List.foldlRecOn _ _ readOnly fun _ readOnly hook _ => readOnly_hookSite readOnly hook.1 hook.2 ptr _
  · rw [hookPtr, if_neg call]
    exact readOnly

theorem hookPtrStores_allowed_iff (pages : ByPage getPte) {image : Image}
    (readOnly : ReadOnly getPte image) (ptr : Nat) :
    (∀ patch ∈ hookPtrStores getPte symbols own level ptr image, patch.Allowed getPte) ↔
      (Stores getPte symbols own level image.memory ptr → ptr % 4096 ≤ 4091) := by
  rw [Stores, redirection_isSome_iff, hookPtrStores]
  by_cases call : image.memory ptr = callq
  · rw [if_pos call, hookStores_allowed_iff pages readOnly]
    simp only [call, true_and, and_imp]
  · simp [call]

theorem hookLoopStores_allowed_iff (pages : ByPage getPte) {image : Image}
    (readOnly : ReadOnly getPte image) (count ptr : Nat) :
    (∀ patch ∈ hookLoopStores getPte symbols own level count ptr image, patch.Allowed getPte) ↔
      ∀ k < count, Stores getPte symbols own level
        (hookLoop getPte symbols own level k ptr image).memory (ptr + k) → (ptr + k) % 4096 ≤ 4091 := by
  induction count generalizing ptr image with
  | zero => simp [hookLoopStores]
  | succ count ih =>
    have later := ih (readOnly_hookPtr symbols own level readOnly ptr) (ptr + 1)
    rw [hookLoopStores, List.forall_mem_append, hookPtrStores_allowed_iff pages readOnly, later]
    constructor
    · rintro ⟨first, rest⟩ k below
      cases k with
      | zero => exact first
      | succ k =>
        rw [hookLoop, show ptr + (k + 1) = ptr + 1 + k by omega]
        exact rest k (by omega)
    · intro all
      refine ⟨all 0 (by omega), fun k below => ?_⟩
      have stores := all (k + 1) (by omega)
      rwa [hookLoop, show ptr + (k + 1) = ptr + 1 + k by omega] at stores

/-! ## What is changed is stored by the trace -/

theorem hookSite_kept {original replacement : Addr} {ptr a : Nat} {dest : BitVec 32} {image : Image}
    (apart : ∀ patch ∈ hookSiteStores getPte original ptr dest image,
      ¬ (patch.ptr + 1 ≤ a ∧ a ≤ patch.ptr + 4)) :
    (hookSite getPte original replacement ptr dest image).memory a = image.memory a := by
  rw [hookSite_memory]
  split
  · rename_i stores
    obtain ⟨pte, found⟩ := Option.isSome_iff_exists.mp stores.2
    rw [hookSiteStores, if_pos stores.1, found] at apart
    have outside := apart _ List.mem_cons_self
    dsimp only at outside
    exact storeWord_frame _ _ _ _ _ (by omega)
  · rfl

theorem hookPtr_kept {ptr a : Nat} {image : Image}
    (apart : ∀ patch ∈ hookPtrStores getPte symbols own level ptr image,
      ¬ (patch.ptr + 1 ≤ a ∧ a ≤ patch.ptr + 4)) :
    (hookPtr getPte symbols own level ptr image).memory a = image.memory a := by
  by_cases call : image.memory ptr = callq
  · rw [hookPtr_foldl symbols own level ptr call]
    rw [hookPtrStores, if_pos call] at apart
    clear call
    generalize displacement image.memory ptr = dest at apart ⊢
    generalize hooks symbols own level = tests at apart ⊢
    induction tests generalizing image with
    | nil => rfl
    | cons hook tests ih =>
      rw [hookStores, List.forall_mem_append] at apart
      rw [List.foldl_cons, ih apart.2, hookSite_kept apart.1]
  · rw [hookPtr, if_neg call]

theorem hookLoop_kept {count ptr a : Nat} {image : Image}
    (apart : ∀ patch ∈ hookLoopStores getPte symbols own level count ptr image,
      ¬ (patch.ptr + 1 ≤ a ∧ a ≤ patch.ptr + 4)) :
    (hookLoop getPte symbols own level count ptr image).memory a = image.memory a := by
  induction count generalizing ptr image with
  | zero => rfl
  | succ count ih =>
    rw [hookLoopStores, List.forall_mem_append] at apart
    rw [hookLoop, ih apart.2, hookPtr_kept apart.1]

/-! ## Every layout of the driver -/

/-- With all pages read-only at first, the four bytes of every store of the scan are on pages
    writable at that moment if and only if no call that it stores to, in the image as it is when
    the scan comes to it, begins in the last four bytes of a page.  These stores are all it does to
    the driver. -/
theorem patches_writable_iff (pages : ByPage getPte) {image : Image} (readOnly : ReadOnly getPte image)
    (symbols : Symbols) (own : Own) (level : BitVec 32) :
    ((∀ patch ∈ hookIxgbeStores getPte symbols own level image, patch.Allowed getPte) ↔
      (symbols.Found → ∀ ptr, InDriver symbols ptr →
        Stores getPte symbols own level (hookLoop getPte symbols own level (ptr - symbols.driverTop)
          symbols.driverTop image).memory ptr → ptr % 4096 ≤ 4091)) ∧
      ∀ hooked, hookIxgbe getPte symbols own level image = some hooked →
        ∀ a, (∀ patch ∈ hookIxgbeStores getPte symbols own level image,
          ¬ (patch.ptr + 1 ≤ a ∧ a ≤ patch.ptr + 4)) → hooked.memory a = image.memory a := by
  rw [hookIxgbe_found]
  unfold hookIxgbeStores
  split
  · rename_i found
    refine ⟨?_, fun hooked returns a apart => ?_⟩
    · rw [hookLoopStores_allowed_iff pages readOnly]
      constructor
      · rintro all - ptr ⟨low, high⟩ stores
        have inside := all (ptr - symbols.driverTop) (by omega)
        rw [show symbols.driverTop + (ptr - symbols.driverTop) = ptr by omega] at inside
        exact inside stores
      · intro all k below stores
        refine all found (symbols.driverTop + k) (inDriver_add below) ?_
        rwa [Nat.add_sub_cancel_left]
    · rw [← Option.some.inj returns]
      exact hookLoop_kept apart
  · rename_i missing
    simp [missing]

end

/-! ## A call across the end of a page -/

def pageTable (a : Nat) : Option Nat := some (a / 4096 * 8)

theorem pageTable_byPage : ByPage pageTable where
  same a b samePage := by rw [pageTable, samePage, pageTable]
  own a b pte left right := by
    simp only [pageTable, Option.some.injEq] at left right
    omega

/-- A call of `netif_receive_skb` from the last two bytes of a page. -/
def endOfPage : Symbols := { sampleSymbols with
  driverTop := 0xffffffffa0000ffe
  driverBottom := 0xffffffffa0001003 }

def endOfPageImage : Image where
  memory := storeBytes (fun _ => 0) endOfPage.driverTop [0xe8#8, 0xfd#8, 0xf5#8, 0x4f#8, 0xe1#8]
  ptes _ := 0x161#64

theorem store_past_page_end :
    ReadOnly pageTable endOfPageImage ∧
      Stores pageTable endOfPage sampleLoaded.own 1#32 endOfPageImage.memory endOfPage.driverTop ∧
      ¬ ∀ patch ∈ hookIxgbeStores pageTable endOfPage sampleLoaded.own 1#32 endOfPageImage,
        patch.Allowed pageTable := by
  have clear : (0x161#64 : BitVec 64) &&& pageRw = 0#64 := by decide
  have readOnly : ReadOnly pageTable endOfPageImage := fun _ _ _ => clear
  have stores : Stores pageTable endOfPage sampleLoaded.own 1#32 endOfPageImage.memory
      endOfPage.driverTop := by decide
  refine ⟨readOnly, stores, fun allowed => ?_⟩
  rw [hookIxgbeStores, if_pos (by decide), hookLoopStores_allowed_iff pageTable_byPage readOnly] at allowed
  exact absurd (allowed 0 (by decide) stores) (by decide)

/-- The same call at the start of a page. -/
theorem patches_writable_sample :
    let image : Image :=
      { memory := storeBytes (fun _ => 0) sampleSymbols.driverTop [0xe8#8, 0xfb#8, 0x05#8, 0x50#8, 0xe1#8]
        ptes := fun _ => 0x161#64 }
    ReadOnly pageTable image ∧
      Stores pageTable sampleSymbols sampleLoaded.own 1#32 image.memory sampleSymbols.driverTop ∧
      ∀ patch ∈ hookIxgbeStores pageTable sampleSymbols sampleLoaded.own 1#32 image,
        patch.Allowed pageTable := by
  intro image
  have clear : (0x161#64 : BitVec 64) &&& pageRw = 0#64 := by decide
  have readOnly : ReadOnly pageTable image := fun _ _ _ => clear
  refine ⟨readOnly, by decide, (patches_writable_iff pageTable_byPage readOnly _ _ _).1.mpr ?_⟩
  intro _ ptr inside _
  obtain ⟨low, high⟩ := inside
  simp only [sampleSymbols] at low high
  omega

end TestPrograms.Genpipe
