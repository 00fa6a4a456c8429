import Mathlib.Data.List.Induction
import TestPrograms.Foundations.Memory

/-! # Patching the driver

`hook_ixgbe` goes over the code of the network driver byte by byte and points the calls
of six kernel functions at replacements in the module.
-/

namespace TestPrograms.Genpipe

open TestPrograms.Foundations
open TestPrograms.Foundations.Memory

abbrev Addr := BitVec 64

/-- What `get_table_entry` leaves in the globals; 0 is a symbol that was not found. -/
structure Symbols where
  kfreeskb : Addr
  devkfreeskbany : Addr
  netdevallocskb : Addr
  netifrx : Addr
  napigroreceive : Addr
  netifreceiveskb : Addr
  ixgbecleanrxirq : Addr
  arprcv : Addr
  iprcv : Addr
  ipv6rcv : Addr
  ptypeall : Addr
  /-- `ptypebase[0]`; the other buckets are found with it. -/
  ptypebase : Addr
  driverTop : Nat
  driverBottom : Nat
  deriving DecidableEq, Repr

structure Own where
  genpipeKfreeSkb : Addr
  genpipeDevKfreeSkbAny : Addr
  genpipeNetdevAllocSkb : Addr
  genpipeNetifRx : Addr
  genpipeNapiGroReceive : Addr
  genpipeNetifReceiveSkb : Addr
  genpipeArprcv : Addr
  genpipeIprcv : Addr
  genpipeIpv6rcv : Addr
  genpipeNop : Addr
  deriving DecidableEq, Repr

/-- The driver's code and the page-table entries that map it. -/
structure Image where
  memory : Memory
  ptes : Nat → BitVec 64

-- `_PAGE_RW`
def pageRw : BitVec 64 := 0x2#64

-- `callq`
def callq : Byte := 0xe8#8

-- `(unsigned int)ptr + 5`
def afterCall (ptr : Nat) : BitVec 32 := BitVec.ofNat 32 ptr + 5#32

def displacement (memory : Memory) (ptr : Nat) : BitVec 32 := BitVec.ofNat 32 (loadWord memory (ptr + 1) 4)

section

variable (getPte : Nat → Option Nat)

/-- One of the six tests on a call: if `dest` leads to `original`, point the call at
    `replacement` through a page made writable for the store. -/
def hookSite (original replacement : Addr) (ptr : Nat) (dest : BitVec 32) (image : Image) : Image :=
  if afterCall ptr + dest = original.setWidth 32 then
    match getPte ptr with
    | none => image
    | some pte =>
      let image := { image with ptes := Function.update image.ptes pte (image.ptes pte ||| pageRw) }
      let image := { image with
        memory := storeWord image.memory (ptr + 1) 4 (replacement.setWidth 32 - afterCall ptr).toNat }
      { image with ptes := Function.update image.ptes pte (image.ptes pte &&& ~~~ pageRw) }
  else image

/-- The body of the loop.  All six tests use the displacement read before the first. -/
def hookPtr (symbols : Symbols) (own : Own) (level : BitVec 32) (ptr : Nat) (image : Image) : Image :=
  if image.memory ptr = callq then
    let dest := displacement image.memory ptr
    let image := hookSite getPte symbols.netifreceiveskb own.genpipeNetifReceiveSkb ptr dest image
    let image := hookSite getPte symbols.napigroreceive own.genpipeNapiGroReceive ptr dest image
    let image := hookSite getPte symbols.netifrx own.genpipeNetifRx ptr dest image
    let image := if (1#32).slt level then
      hookSite getPte symbols.netdevallocskb own.genpipeNetdevAllocSkb ptr dest image else image
    -- a shift here, so also at a negative level
    let image := if level.sshiftRight 1 ≠ 0#32 then
      hookSite getPte symbols.kfreeskb own.genpipeKfreeSkb ptr dest image else image
    if level.sshiftRight 1 ≠ 0#32 then
      hookSite getPte symbols.devkfreeskbany own.genpipeDevKfreeSkbAny ptr dest image else image
  else image

def hookLoop (symbols : Symbols) (own : Own) (level : BitVec 32) : Nat → Nat → Image → Image
  | 0, _, image => image
  | count + 1, ptr, image =>
    hookLoop symbols own level count (ptr + 1) (hookPtr getPte symbols own level ptr image)

/-- `hook_ixgbe`; `none` for -1. -/
def hookIxgbe (symbols : Symbols) (own : Own) (level : BitVec 32) (image : Image) : Option Image :=
  if symbols.netifreceiveskb = 0#64 ∨ symbols.ixgbecleanrxirq = 0#64 then none
  else if symbols.napigroreceive = 0#64 ∨ symbols.ixgbecleanrxirq = 0#64 ∨ symbols.netifrx = 0#64 then
    none
  else if symbols.netdevallocskb = 0#64 then none
  else some (hookLoop getPte symbols own level (symbols.driverBottom - symbols.driverTop)
    symbols.driverTop image)

/-! ## What a round does -/

def hooks (symbols : Symbols) (own : Own) (level : BitVec 32) : List (Addr × Addr) :=
  [(symbols.netifreceiveskb, own.genpipeNetifReceiveSkb),
    (symbols.napigroreceive, own.genpipeNapiGroReceive), (symbols.netifrx, own.genpipeNetifRx)] ++
  (if (1#32).slt level then [(symbols.netdevallocskb, own.genpipeNetdevAllocSkb)] else []) ++
  (if level.sshiftRight 1 ≠ 0#32 then [(symbols.kfreeskb, own.genpipeKfreeSkb),
    (symbols.devkfreeskbany, own.genpipeDevKfreeSkbAny)] else [])

/-- The displacement that a call at `ptr` gets: that of the last hook its target matches. -/
def redirection (symbols : Symbols) (own : Own) (level : BitVec 32) (memory : Memory) (ptr : Nat) :
    Option (BitVec 32) :=
  if memory ptr = callq then
    (((hooks symbols own level).filter fun hook =>
      afterCall ptr + displacement memory ptr = hook.1.setWidth 32).getLast?).map fun hook =>
        hook.2.setWidth 32 - afterCall ptr
  else none

variable {getPte}

theorem hookPtr_foldl (symbols : Symbols) (own : Own) (level : BitVec 32) (ptr : Nat) {image : Image}
    (call : image.memory ptr = callq) :
    hookPtr getPte symbols own level ptr image =
      (hooks symbols own level).foldl (fun img hook =>
        hookSite getPte hook.1 hook.2 ptr (displacement image.memory ptr) img) image := by
  simp only [hookPtr, call, if_true, hooks, List.foldl_append, List.foldl_cons, List.foldl_nil]
  by_cases alloc : (1#32).slt level = true <;> by_cases free : level.sshiftRight 1 = 0#32 <;>
    simp only [alloc, free, ne_eq, not_true_eq_false, not_false_eq_true, if_true, if_false,
      List.foldl_cons, List.foldl_nil, Bool.false_eq_true]

theorem hookSite_memory (original replacement : Addr) (ptr : Nat) (dest : BitVec 32) (image : Image) :
    (hookSite getPte original replacement ptr dest image).memory =
      if afterCall ptr + dest = original.setWidth 32 ∧ (getPte ptr).isSome then
        storeWord image.memory (ptr + 1) 4 (replacement.setWidth 32 - afterCall ptr).toNat
      else image.memory := by
  unfold hookSite
  split
  · rename_i leads
    cases getPte ptr <;> simp [leads]
  · rename_i other
    rw [if_neg fun both => other both.1]

theorem foldl_hookSite_memory (matching : List (Addr × Addr)) (ptr : Nat) (dest : BitVec 32)
    (image : Image) :
    (matching.foldl (fun img hook => hookSite getPte hook.1 hook.2 ptr dest img) image).memory =
      match ((matching.filter fun hook => afterCall ptr + dest = hook.1.setWidth 32).getLast?).map
          (fun hook => hook.2.setWidth 32 - afterCall ptr), getPte ptr with
      | some new, some _ => storeWord image.memory (ptr + 1) 4 new.toNat
      | _, _ => image.memory := by
  -- from the last hook on: where it matches, its store covers the ones before
  induction matching using List.reverseRecOn with
  | nil => rfl
  | append_singleton matching hook ih =>
    rw [List.foldl_append, List.foldl_cons, List.foldl_nil, hookSite_memory, ih, List.filter_append]
    by_cases leads : afterCall ptr + dest = hook.1.setWidth 32
    · cases pte : getPte ptr with
      | none => simp
      | some entry =>
        have last : ([hook].filter fun hook => afterCall ptr + dest = hook.1.setWidth 32) = [hook] := by
          simp [leads]
        rw [last, List.getLast?_concat]
        simp only [leads, Option.isSome_some, and_self, if_true, Option.map_some]
        split
        · rw [storeWord_storeWord]
        · rfl
    · simp [leads]

theorem hookPtr_memory (symbols : Symbols) (own : Own) (level : BitVec 32) (ptr : Nat) (image : Image) :
    (hookPtr getPte symbols own level ptr image).memory =
      match redirection symbols own level image.memory ptr, getPte ptr with
      | some new, some _ => storeWord image.memory (ptr + 1) 4 new.toNat
      | _, _ => image.memory := by
  by_cases call : image.memory ptr = callq
  · rw [hookPtr_foldl symbols own level ptr call, foldl_hookSite_memory, redirection, if_pos call]
  · rw [redirection, if_neg call, hookPtr, if_neg call]

end

end TestPrograms.Genpipe
