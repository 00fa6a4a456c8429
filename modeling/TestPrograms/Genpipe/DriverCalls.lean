import Mathlib.Data.List.Count
import TestPrograms.Genpipe.Counters
import TestPrograms.Genpipe.HookedCalls

/-! # The calls of a hooked driver

The six functions that the driver's calls are pointed at, as what they count and what they call
in the kernel.  A run of the driver is a list of its calls, each with the processor it is made on.
-/

namespace TestPrograms.Genpipe

open TestPrograms.Foundations

/-- The kernel functions that the module knows of. -/
inductive KernelFunction where
  | netifReceiveSkb
  | napiGroReceive
  | netifRx
  | netdevAllocSkb
  | kfreeSkb
  | devKfreeSkbAny
  deriving DecidableEq, Repr

/-- `rx_count`, `alloc_count` and `free_count`. -/
inductive Column where
  | rx
  | alloc
  | free
  deriving DecidableEq, Repr

inductive CallOp where
  -- `++rx_count[smp_processor_id()]` and the like
  | count (column : Column)
  | call (function : KernelFunction) (args : List Nat)
  deriving DecidableEq, Repr

def genpipeKfreeSkb (skb : Nat) : List CallOp := [.call .kfreeSkb [skb]]

def genpipeDevKfreeSkbAny (skb reason : Nat) : List CallOp := [.call .devKfreeSkbAny [skb, reason]]

def genpipeNetdevAllocSkb (dev length gfpMask : Nat) : List CallOp :=
  [.count .alloc, .call .netdevAllocSkb [dev, length, gfpMask]]

def genpipeNetifRx (skb : Nat) : List CallOp := [.count .rx, .call .netifRx [skb]]

/-- The packet is freed and goes no further. -/
def genpipeNapiGroReceive (_napi skb : Nat) : List CallOp :=
  [.count .free, .count .rx, .call .kfreeSkb [skb]]

def genpipeNetifReceiveSkb (skb : Nat) : List CallOp := [.count .rx, .call .netifReceiveSkb [skb]]

namespace KernelFunction

variable (symbols : Symbols) (own : Own)

def original : KernelFunction → Addr
  | netifReceiveSkb => symbols.netifreceiveskb
  | napiGroReceive => symbols.napigroreceive
  | netifRx => symbols.netifrx
  | netdevAllocSkb => symbols.netdevallocskb
  | kfreeSkb => symbols.kfreeskb
  | devKfreeSkbAny => symbols.devkfreeskbany

def replacement : KernelFunction → Addr
  | netifReceiveSkb => own.genpipeNetifReceiveSkb
  | napiGroReceive => own.genpipeNapiGroReceive
  | netifRx => own.genpipeNetifRx
  | netdevAllocSkb => own.genpipeNetdevAllocSkb
  | kfreeSkb => own.genpipeKfreeSkb
  | devKfreeSkbAny => own.genpipeDevKfreeSkbAny

/-- The calls of the function are hooked at the level. -/
def hooked (level : BitVec 32) : KernelFunction → Bool
  | netifReceiveSkb | napiGroReceive | netifRx => true
  | netdevAllocSkb => (1#32).slt level
  | kfreeSkb | devKfreeSkbAny => level.sshiftRight 1 ≠ 0#32

end KernelFunction

/-- A call of a kernel function by the driver, with its arguments. -/
inductive DriverCall where
  | netifReceiveSkb (skb : Nat)
  | napiGroReceive (napi skb : Nat)
  | netifRx (skb : Nat)
  | netdevAllocSkb (dev length gfpMask : Nat)
  | kfreeSkb (skb : Nat)
  | devKfreeSkbAny (skb reason : Nat)
  deriving DecidableEq, Repr

namespace DriverCall

def function : DriverCall → KernelFunction
  | netifReceiveSkb _ => .netifReceiveSkb
  | napiGroReceive _ _ => .napiGroReceive
  | netifRx _ => .netifRx
  | netdevAllocSkb _ _ _ => .netdevAllocSkb
  | kfreeSkb _ => .kfreeSkb
  | devKfreeSkbAny _ _ => .devKfreeSkbAny

def args : DriverCall → List Nat
  | netifReceiveSkb skb | netifRx skb | kfreeSkb skb => [skb]
  | napiGroReceive napi skb => [napi, skb]
  | netdevAllocSkb dev length gfpMask => [dev, length, gfpMask]
  | devKfreeSkbAny skb reason => [skb, reason]

def plain (call : DriverCall) : List CallOp := [.call call.function call.args]

/-- What the module's function in the place of the called one does. -/
def replaced : DriverCall → List CallOp
  | netifReceiveSkb skb => genpipeNetifReceiveSkb skb
  | napiGroReceive napi skb => genpipeNapiGroReceive napi skb
  | netifRx skb => genpipeNetifRx skb
  | netdevAllocSkb dev length gfpMask => genpipeNetdevAllocSkb dev length gfpMask
  | kfreeSkb skb => genpipeKfreeSkb skb
  | devKfreeSkbAny skb reason => genpipeDevKfreeSkbAny skb reason

/-- The call where the instruction leads to `target`, to the module's function or the kernel's. -/
def reach (own : Own) (call : DriverCall) (target : Addr) : List CallOp :=
  if target = call.function.replacement own then call.replaced else call.plain

end DriverCall

/-- A call on the processor `cpu` by the instruction at `ptr`. -/
structure Called where
  cpu : Nat
  ptr : Nat
  call : DriverCall
  deriving DecidableEq, Repr

/-- What a run of calls does with the code in `memory`. -/
def callOps (own : Own) (memory : Memory) (calls : List Called) : List (Nat × CallOp) :=
  calls.flatMap fun c => (c.call.reach own (callTarget memory c.ptr)).map fun op => (c.cpu, op)

def Counters.get {α : Type} (counters : Counters α) : Column → α
  | .rx => counters.rxCount
  | .alloc => counters.allocCount
  | .free => counters.freeCount

def bump (column : Column) (counters : Counters (BitVec 64)) : Counters (BitVec 64) :=
  match column with
  | .rx => { counters with rxCount := counters.rxCount + 1 }
  | .alloc => { counters with allocCount := counters.allocCount + 1 }
  | .free => { counters with freeCount := counters.freeCount + 1 }

def countOp (cpus : List (Counters (BitVec 64))) (op : Nat × CallOp) : List (Counters (BitVec 64)) :=
  match op.2 with
  | .count column => cpus.modify op.1 (bump column)
  | .call _ _ => cpus

/-- The counters of the processors after a run. -/
def countOps (cpus : List (Counters (BitVec 64))) (ops : List (Nat × CallOp)) :
    List (Counters (BitVec 64)) := ops.foldl countOp cpus

/-! ## Counting -/

theorem length_countOp (cpus : List (Counters (BitVec 64))) (op : Nat × CallOp) :
    (countOp cpus op).length = cpus.length := by
  obtain ⟨cpu, column | call⟩ := op
  · exact List.length_modify ..
  · rfl

/-- The original call instruction that makes the call, which no other call that is hooked
    reaches into. -/
structure Called.Valid (m : Loaded) (symbols : Symbols) (level : BitVec 32) (memory : Memory)
    (c : Called) : Prop where
  inside : InDriver symbols c.ptr
  callq : memory c.ptr = callq
  leads : callTarget memory c.ptr = c.call.function.original symbols
  alone : ∀ q, InDriver symbols q → Site m symbols level memory q →
    q = c.ptr ∨ q + 5 ≤ c.ptr ∨ c.ptr + 5 ≤ q

namespace KernelFunction

variable {symbols : Symbols} {own : Own} {level : BitVec 32}

theorem mem_hooks (symbols : Symbols) (own : Own) (f : KernelFunction) (hooked : f.hooked level = true) :
    (f.original symbols, f.replacement own) ∈ hooks symbols own level := by
  cases f <;> simp_all [KernelFunction.hooked, hooks, original, replacement]

theorem hooked_of_mem {hook : Addr × Addr} (member : hook ∈ hooks symbols own level) :
    ∃ f : KernelFunction, f.hooked level = true ∧ hook = (f.original symbols, f.replacement own) := by
  simp only [hooks, List.mem_append, List.mem_cons, List.not_mem_nil, or_false] at member
  obtain ((rfl | rfl | rfl) | alloc) | free := member
  · exact ⟨netifReceiveSkb, rfl, rfl⟩
  · exact ⟨napiGroReceive, rfl, rfl⟩
  · exact ⟨netifRx, rfl, rfl⟩
  · split at alloc
    · rename_i above
      exact ⟨netdevAllocSkb, above, List.mem_singleton.mp alloc⟩
    · cases alloc
  · split at free
    · rename_i shifted
      simp only [List.mem_cons, List.not_mem_nil, or_false] at free
      obtain rfl | rfl := free
      · exact ⟨kfreeSkb, decide_eq_true shifted, rfl⟩
      · exact ⟨devKfreeSkbAny, decide_eq_true shifted, rfl⟩
    · cases free

end KernelFunction

namespace DriverCall

/-- What the kernel is called for: `napi_gro_receive` has become `kfree_skb`. -/
def dropped : DriverCall → KernelFunction × List Nat
  | napiGroReceive _ skb => (.kfreeSkb, [skb])
  | call => (call.function, call.args)

/-- The call is counted in the column when the driver is hooked at the level. -/
def counted (level : BitVec 32) : DriverCall → Column → Bool
  | netifReceiveSkb _, .rx | napiGroReceive _ _, .rx | netifRx _, .rx => true
  | napiGroReceive _ _, .free => true
  | netdevAllocSkb _ _ _, .alloc => (1#32).slt level
  | _, _ => false

def hookedOps (level : BitVec 32) (call : DriverCall) : List CallOp :=
  if call.function.hooked level then call.replaced else call.plain

theorem count_hookedOps (level : BitVec 32) (call : DriverCall) (column : Column) :
    (call.hookedOps level).count (.count column) = if call.counted level column then 1 else 0 := by
  cases call with
  | netdevAllocSkb dev length gfpMask =>
    by_cases above : (1#32).slt level = true
    · cases column <;> simp [hookedOps, function, KernelFunction.hooked, above, replaced,
        genpipeNetdevAllocSkb, counted]
    · cases column <;> simp [hookedOps, function, KernelFunction.hooked, above, plain, counted]
  | kfreeSkb skb =>
    cases column <;> simp only [hookedOps] <;> split <;> simp [replaced, genpipeKfreeSkb, plain, counted]
  | devKfreeSkbAny skb reason =>
    cases column <;> simp only [hookedOps] <;> split <;>
      simp [replaced, genpipeDevKfreeSkbAny, plain, counted]
  | netifReceiveSkb skb => cases column <;> rfl
  | napiGroReceive napi skb => cases column <;> rfl
  | netifRx skb => cases column <;> rfl

end DriverCall

section

variable {m : Loaded} {symbols : Symbols} {level : BitVec 32} {memory hooked : Memory}

/-- In an image with exactly the calls of hooked functions redirected, those reach the module
    and the others the kernel. -/
theorem Called.Valid.reach_hooked {c : Called} (valid : c.Valid m symbols level memory)
    (exact : Exact m symbols level memory hooked)
    (injective : Function.Injective fun f : KernelFunction => f.original symbols)
    (foreign : ∀ f : KernelFunction, f.original symbols ≠ f.replacement m.own) :
    c.call.reach m.own (callTarget hooked c.ptr) = c.call.hookedOps level := by
  unfold DriverCall.reach DriverCall.hookedOps
  by_cases hooks : c.call.function.hooked level = true
  · have member := KernelFunction.mem_hooks symbols m.own c.call.function hooks
    obtain ⟨-, leads⟩ := exact.redirected c.ptr valid.inside valid.callq _ member valid.leads
    rw [if_pos leads, if_pos hooks]
  · have noSite : ¬ Site m symbols level memory c.ptr := by
      rintro ⟨-, hook, member, leads⟩
      obtain ⟨f, hooked, rfl⟩ := KernelFunction.hooked_of_mem member
      have same : c.call.function = f := injective (valid.leads.symm.trans leads)
      exact hooks (same ▸ hooked)
    have still : callTarget hooked c.ptr = callTarget memory c.ptr := by
      rw [callTarget, callTarget, displacement_congr fun i low high => ?_]
      refine exact.untouched _ fun q inside site around => ?_
      obtain rfl | before | behind := valid.alone q inside site
      · exact noSite site
      · omega
      · omega
    rw [still, valid.leads, if_neg (foreign _), if_neg hooks]

theorem callOps_hooked {calls : List Called} (valid : ∀ c ∈ calls, c.Valid m symbols level memory)
    (exact : Exact m symbols level memory hooked)
    (injective : Function.Injective fun f : KernelFunction => f.original symbols)
    (foreign : ∀ f : KernelFunction, f.original symbols ≠ f.replacement m.own) :
    callOps m.own hooked calls =
      calls.flatMap fun c => (c.call.hookedOps level).map fun op => (c.cpu, op) := by
  unfold callOps
  refine List.flatMap_congr fun c member => ?_
  rw [(valid c member).reach_hooked exact injective foreign]

theorem countP_hooked (p : Nat → Bool) (level : BitVec 32) (calls : List Called) (column : Column) :
    (calls.flatMap fun c => (c.call.hookedOps level).map fun op => (c.cpu, op)).countP
        (fun op => p op.1 && op.2 == .count column) =
      calls.countP fun c => p c.cpu && c.call.counted level column := by
  induction calls with
  | nil => rfl
  | cons c calls ih =>
    have first : ((c.call.hookedOps level).map fun op => (c.cpu, op)).countP
        (fun op => p op.1 && op.2 == .count column) =
          if p c.cpu && c.call.counted level column then 1 else 0 := by
      rw [List.countP_map]
      cases chosen : p c.cpu with
      | false => simp [Function.comp_def, chosen]
      | true =>
        have counted := c.call.count_hookedOps level column
        rw [List.count] at counted
        simpa [Function.comp_def, chosen] using counted
    rw [List.flatMap_cons, List.countP_append, ih, first, List.countP_cons, Nat.add_comm]

end

/-! ## A driver with one call -/

-- `callq napi_gro_receive`
def sampleCall : Memory :=
  (sampleWorld [0xe8#8, 0xfb#8, 0x04#8, 0x50#8, 0xe1#8] []).image.memory

def sampleHooked : Memory := patched sampleLoaded sampleSymbols 1#32 sampleCall 5

theorem site_sampleCall {ptr : Nat} (inside : InDriver sampleSymbols ptr)
    (site : Site sampleLoaded sampleSymbols 1#32 sampleCall ptr) : ptr = sampleSymbols.driverTop := by
  have single : ∀ k < 5, sampleCall (sampleSymbols.driverTop + k) = callq → k = 0 := by decide
  obtain ⟨k, below, rfl, call⟩ := site_sample inside site
  rw [single k below call, Nat.add_zero]

theorem sampleHooked_exact : Exact sampleLoaded sampleSymbols 1#32 sampleCall sampleHooked := by
  refine exact_of_calm (fun p q inP inQ atP atQ before => ?_) fun ptr inside call hook member leads => ?_
  · rw [site_sampleCall inP atP, site_sampleCall inQ atQ] at before
    exact absurd before (Nat.lt_irrefl _)
  · obtain rfl := site_sampleCall inside ⟨call, hook, member, leads⟩
    have reached : ∀ hook ∈ hooks sampleSymbols sampleLoaded.own 1#32,
        callTarget sampleCall sampleSymbols.driverTop = hook.1 →
          BitVec.ofNat 64 sampleSymbols.driverTop + 5#64 + (0x1004fb#32).signExtend 64 = hook.2 :=
      forall_hooks (by decide)
    exact ⟨0x1004fb#32, by decide, reached hook member leads⟩

def sampleCalls : List Called :=
  [⟨0, sampleSymbols.driverTop, .napiGroReceive 16 32⟩, ⟨1, sampleSymbols.driverTop, .napiGroReceive 16 48⟩]

theorem sampleCalls_valid : ∀ c ∈ sampleCalls, c.Valid sampleLoaded sampleSymbols 1#32 sampleCall := by
  intro c member
  have leads : ∀ c ∈ sampleCalls, c.ptr = sampleSymbols.driverTop ∧
      callTarget sampleCall c.ptr = c.call.function.original sampleSymbols := by decide
  obtain ⟨here, leads⟩ := leads c member
  refine ⟨?_, ?_, leads, fun q inside site => .inl ?_⟩
  · rw [here]
    exact ⟨Nat.le_refl _, by decide⟩
  · rw [here]
    decide
  · rw [here, site_sampleCall inside site]

theorem sample_foreign (f : KernelFunction) :
    f.original sampleSymbols ≠ f.replacement sampleLoaded.own := by
  cases f <;> decide

theorem sample_injective : Function.Injective fun f : KernelFunction => f.original sampleSymbols := by
  intro f g same
  cases f <;> cases g <;> first | rfl | exact absurd same (by decide)

end TestPrograms.Genpipe
