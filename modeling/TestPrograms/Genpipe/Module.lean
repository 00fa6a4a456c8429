import Mathlib.Data.List.Forall2
import TestPrograms.Genpipe.Hook
import TestPrograms.Genpipe.Transmit

/-! # Loading and unloading the module

`genpipe_init` and `genpipe_cleanup` over the part of the kernel they change: the
reference to the network device, the two buffers, the driver's code, the protocol
handlers and the misc device.
-/

namespace TestPrograms.Genpipe

open TestPrograms.Foundations

/-- `struct packet_type`: the address it stands at and its handler. -/
structure PacketType where
  node : Addr
  func : Addr
  deriving DecidableEq, Repr

/-- `pbuf0`; 0 is NULL. -/
structure Pbuf where
  rxStartPtr : Nat
  rxEndPtr : Nat
  rxWritePtr : Nat
  rxReadPtr : Nat
  txStartPtr : Nat
  txEndPtr : Nat
  txWritePtr : Nat
  txReadPtr : Nat
  deriving DecidableEq, Repr

/-- What the module changes: first of the kernel, then of its own globals. -/
structure World where
  deviceRefs : Nat
  allocated : List Nat
  image : Image
  ptypeBase : List (List PacketType)
  ptypeAll : List PacketType
  registered : Bool
  device : Nat
  packDev : Nat
  pbuf0 : Pbuf
  symbols : Symbols
  backupFunc : Addr

structure Params where
  hookDevAddPack : BitVec 32
  hookDriver : BitVec 32
  deriving DecidableEq, Repr

/-- How the calls of one `genpipe_init` turn out: the device found (0 for none), the two
    buffers allocated (0 for none), the table read (`none` without `/proc/kallsyms`) and
    the value of `misc_register`. -/
structure Outcome where
  device : Nat
  rxBuffer : Nat
  txBuffer : Nat
  table : Option Symbols
  miscRegister : Int
  deriving DecidableEq, Repr

/-- The module itself: where its functions are and what `get_pte` finds. -/
structure Loaded where
  own : Own
  getPte : Nat → Option Nat

/-- `list_for_each_entry_rcu` over a list head at NULL. -/
inductive Oops where
  | nullList
  deriving DecidableEq, Repr

def freeRx (w : World) : World :=
  if w.pbuf0.rxStartPtr ≠ 0 then
    { w with
      allocated := w.allocated.erase w.pbuf0.rxStartPtr
      pbuf0 := { w.pbuf0 with rxStartPtr := 0 } }
  else w

def freeTx (w : World) : World :=
  if w.pbuf0.txStartPtr ≠ 0 then
    { w with
      allocated := w.allocated.erase w.pbuf0.txStartPtr
      pbuf0 := { w.pbuf0 with txStartPtr := 0 } }
  else w

/-- The two `kfree` of the error path, and of `genpipe_cleanup`. -/
def freeBuffers (w : World) : World := freeTx (freeRx w)

/-- The globals after a failed `get_table_entry`: no symbol, the driver's range as it was. -/
def noSymbols (symbols : Symbols) : Symbols :=
  { kfreeskb := 0#64, devkfreeskbany := 0#64, netdevallocskb := 0#64, netifrx := 0#64,
    napigroreceive := 0#64, netifreceiveskb := 0#64, ixgbecleanrxirq := 0#64, arprcv := 0#64,
    iprcv := 0#64, ipv6rcv := 0#64, ptypeall := 0#64, ptypebase := 0#64,
    driverTop := symbols.driverTop, driverBottom := symbols.driverBottom }

/-! ## The handlers -/

def hookBase (symbols : Symbols) (own : Own) (ptype : PacketType) : PacketType :=
  if ptype.func = symbols.arprcv then { ptype with func := own.genpipeArprcv }
  else if ptype.func = symbols.iprcv then { ptype with func := own.genpipeIprcv }
  else if ptype.func = symbols.ipv6rcv then { ptype with func := own.genpipeIpv6rcv }
  else ptype

def unhookBase (symbols : Symbols) (own : Own) (ptype : PacketType) : PacketType :=
  if ptype.func = own.genpipeArprcv then { ptype with func := symbols.arprcv }
  else if ptype.func = own.genpipeIprcv then { ptype with func := symbols.iprcv }
  else if ptype.func = own.genpipeIpv6rcv then { ptype with func := symbols.ipv6rcv }
  else ptype

/-- The loop over `ptype_all` when loading, with `backup_func` as it goes. -/
def hookAll (own : Own) : List PacketType → Addr → List PacketType × Addr
  | [], backupFunc => ([], backupFunc)
  | ptype :: rest, _ =>
    let (rest, backupFunc) := hookAll own rest ptype.func
    ({ ptype with func := own.genpipeNop } :: rest, backupFunc)

def unhookAll (backupFunc : Addr) (ptypes : List PacketType) : List PacketType :=
  -- `if (ptype->func == genpipe_nop);` guards nothing
  ptypes.map fun ptype => { ptype with func := backupFunc }

def hookHandlers (own : Own) (w : World) : Except Oops World :=
  if w.symbols.ptypebase = 0#64 ∨ w.symbols.ptypeall = 0#64 then .error .nullList
  else
    let w := { w with ptypeBase := w.ptypeBase.map (List.map (hookBase w.symbols own)) }
    let (ptypeAll, backupFunc) := hookAll own w.ptypeAll w.backupFunc
    .ok { w with ptypeAll, backupFunc }

def unhookHandlers (own : Own) (w : World) : Except Oops World :=
  if w.symbols.ptypebase = 0#64 ∨ w.symbols.ptypeall = 0#64 then .error .nullList
  else
    let w := { w with ptypeBase := w.ptypeBase.map (List.map (unhookBase w.symbols own)) }
    .ok { w with ptypeAll := unhookAll w.backupFunc w.ptypeAll }

/-! ## `genpipe_init` and `genpipe_cleanup` -/

/-- From `misc_register` on. -/
def finishInit (m : Loaded) (params : Params) (outcome : Outcome) (w : World) :
    Except Oops (Int × World) :=
  if outcome.miscRegister ≠ 0 then .ok (outcome.miscRegister, freeBuffers w)
  else
    let w := { w with registered := true }
    let hooked := if params.hookDevAddPack ≠ 0#32 then hookHandlers m.own w else .ok w
    match hooked with
    | .error oops => .error oops
    | .ok w => .ok (0, { w with packDev := w.device })

/-- The hook of the driver, `none` where it returns -1. -/
def hookDriver (m : Loaded) (params : Params) (w : World) : Option World :=
  if 0#32 < params.hookDriver then
    (hookIxgbe m.getPte w.symbols m.own params.hookDriver w.image).map fun image => { w with image }
  else some w

def genpipeInit (m : Loaded) (params : Params) (outcome : Outcome) (w : World) :
    Except Oops (Int × World) :=
  let w := { w with device := outcome.device }
  if outcome.device = 0 then .ok (-1, freeBuffers w)
  else
    let w := { w with deviceRefs := w.deviceRefs + 1 }
    let w := { w with pbuf0 := { w.pbuf0 with rxStartPtr := outcome.rxBuffer } }
    if outcome.rxBuffer = 0 then .ok (-1, freeBuffers w)
    else
      let w := { w with
        allocated := outcome.rxBuffer :: w.allocated
        pbuf0 := { w.pbuf0 with
          rxEndPtr := outcome.rxBuffer + packetBufMax - 1
          rxWritePtr := outcome.rxBuffer
          rxReadPtr := outcome.rxBuffer } }
      let w := { w with pbuf0 := { w.pbuf0 with txStartPtr := outcome.txBuffer } }
      if outcome.txBuffer = 0 then .ok (-1, freeBuffers w)
      else
        let w := { w with
          allocated := outcome.txBuffer :: w.allocated
          pbuf0 := { w.pbuf0 with
            txEndPtr := outcome.txBuffer + packetBufMax - 1
            txWritePtr := outcome.txBuffer
            txReadPtr := outcome.txBuffer } }
        match outcome.table with
        | none => .ok (-1, freeBuffers { w with symbols := noSymbols w.symbols })
        | some symbols =>
          let w := { w with symbols }
          match hookDriver m params w with
          | none => .ok (-1, freeBuffers w)
          | some w => finishInit m params outcome w

def genpipeCleanup (m : Loaded) (params : Params) (w : World) : Except Oops World :=
  let w := { w with registered := false }
  let unhooked := if params.hookDevAddPack ≠ 0#32 then unhookHandlers m.own w else .ok w
  match unhooked with
  | .error oops => .error oops
  | .ok w => .ok (freeBuffers w)

/-! ## Other users of the handler lists -/

/-- `dev_add_pack` and `dev_remove_pack` on a bucket of `ptype_base` or on `ptype_all`; an
    entry is added at the head and removed by its address. -/
inductive PackEvent where
  | addBase (bucket : Nat) (ptype : PacketType)
  | removeBase (bucket : Nat) (node : Addr)
  | addAll (ptype : PacketType)
  | removeAll (node : Addr)
  deriving DecidableEq, Repr

def addPack (ptype : PacketType) (ptypes : List PacketType) : List PacketType := ptype :: ptypes

def removePack (node : Addr) (ptypes : List PacketType) : List PacketType :=
  ptypes.filter fun ptype => ptype.node ≠ node

theorem removePack_alike {Alike : PacketType → PacketType → Prop} {left right : List PacketType}
    (nodes : ∀ a b, Alike a b → a.node = b.node) (node : Addr)
    (alike : List.Forall₂ Alike left right) :
    List.Forall₂ Alike (removePack node left) (removePack node right) := by
  refine List.rel_filter (fun a b same => ?_) alike
  dsimp only
  rw [nodes a b same]

def allEvent (ptypes : List PacketType) : PackEvent → List PacketType
  | .addAll ptype => addPack ptype ptypes
  | .removeAll node => removePack node ptypes
  | .addBase .. | .removeBase .. => ptypes

def baseEvent (buckets : List (List PacketType)) : PackEvent → List (List PacketType)
  | .addBase bucket ptype => buckets.modify bucket (addPack ptype)
  | .removeBase bucket node => buckets.modify bucket (removePack node)
  | .addAll _ | .removeAll _ => buckets

def packEvent (w : World) (event : PackEvent) : World :=
  { w with ptypeBase := baseEvent w.ptypeBase event, ptypeAll := allEvent w.ptypeAll event }

theorem foldl_packEvent (w : World) (events : List PackEvent) :
    events.foldl packEvent w = { w with
      ptypeBase := events.foldl baseEvent w.ptypeBase
      ptypeAll := events.foldl allEvent w.ptypeAll } := by
  induction events generalizing w with
  | nil => rfl
  | cons event events ih => exact ih (packEvent w event)

theorem map_eq_of_forall₂ {α β γ : Type} {f : α → γ} {g : β → γ} {left : List α} {right : List β}
    (alike : List.Forall₂ (fun a b => f a = g b) left right) : left.map f = right.map g := by
  rw [← List.forall₂_eq_eq_eq, List.forall₂_map_left_iff, List.forall₂_map_right_iff]
  exact alike

/-- Events look at the addresses of entries and at nothing else: lists that are alike entry by
    entry stay alike. -/
theorem foldl_allEvent_alike {Alike : PacketType → PacketType → Prop} {left right : List PacketType}
    (events : List PackEvent) (nodes : ∀ a b, Alike a b → a.node = b.node)
    (added : ∀ ptype, .addAll ptype ∈ events → Alike ptype ptype)
    (alike : List.Forall₂ Alike left right) :
    List.Forall₂ Alike (events.foldl allEvent left) (events.foldl allEvent right) := by
  induction events generalizing left right with
  | nil => exact alike
  | cons event events ih =>
    refine ih (fun ptype member => added ptype (List.mem_cons_of_mem _ member)) ?_
    cases event with
    | addBase | removeBase => exact alike
    | addAll ptype => exact .cons (added ptype List.mem_cons_self) alike
    | removeAll node => exact removePack_alike nodes node alike

theorem modify_alike {Alike : PacketType → PacketType → Prop} {left right : List (List PacketType)}
    {change : List PacketType → List PacketType}
    (kept : ∀ a b, List.Forall₂ Alike a b → List.Forall₂ Alike (change a) (change b)) (bucket : Nat)
    (alike : List.Forall₂ (List.Forall₂ Alike) left right) :
    List.Forall₂ (List.Forall₂ Alike) (left.modify bucket change) (right.modify bucket change) := by
  induction alike generalizing bucket with
  | nil => cases bucket <;> exact .nil
  | cons first rest ih =>
    cases bucket with
    | zero => exact .cons (kept _ _ first) rest
    | succ bucket => exact .cons first (ih bucket)

theorem foldl_baseEvent_alike {Alike : PacketType → PacketType → Prop}
    {left right : List (List PacketType)} (events : List PackEvent)
    (nodes : ∀ a b, Alike a b → a.node = b.node)
    (added : ∀ bucket ptype, .addBase bucket ptype ∈ events → Alike ptype ptype)
    (alike : List.Forall₂ (List.Forall₂ Alike) left right) :
    List.Forall₂ (List.Forall₂ Alike) (events.foldl baseEvent left)
      (events.foldl baseEvent right) := by
  induction events generalizing left right with
  | nil => exact alike
  | cons event events ih =>
    refine ih (fun bucket ptype member => added bucket ptype (List.mem_cons_of_mem _ member)) ?_
    cases event with
    | addBase bucket ptype =>
      exact modify_alike (fun a b same => .cons (added bucket ptype List.mem_cons_self) same) bucket
        alike
    | removeBase bucket node =>
      exact modify_alike (fun a b same => removePack_alike nodes node same) bucket alike
    | addAll | removeAll => exact alike

/-! ## What a successful load and an unload do -/

def prepared (outcome : Outcome) (symbols : Symbols) (image : Image) (w : World) : World :=
  { w with
    device := outcome.device
    deviceRefs := w.deviceRefs + 1
    allocated := outcome.txBuffer :: outcome.rxBuffer :: w.allocated
    pbuf0 := {
      rxStartPtr := outcome.rxBuffer
      rxEndPtr := outcome.rxBuffer + packetBufMax - 1
      rxWritePtr := outcome.rxBuffer
      rxReadPtr := outcome.rxBuffer
      txStartPtr := outcome.txBuffer
      txEndPtr := outcome.txBuffer + packetBufMax - 1
      txWritePtr := outcome.txBuffer
      txReadPtr := outcome.txBuffer }
    symbols
    image }

variable {m : Loaded} {params : Params} {outcome : Outcome} {w loaded unloaded : World}

theorem genpipeInit_ok (succeeds : genpipeInit m params outcome w = .ok (0, loaded)) :
    ∃ symbols image, outcome.table = some symbols ∧
      (if 0#32 < params.hookDriver then
        hookIxgbe m.getPte symbols m.own params.hookDriver w.image = some image
      else image = w.image) ∧
      finishInit m params outcome (prepared outcome symbols image w) = .ok (0, loaded) := by
  unfold genpipeInit at succeeds
  dsimp only at succeeds
  -- the three exits before the table is read return -1
  split at succeeds
  · simp at succeeds
  split at succeeds
  · simp at succeeds
  split at succeeds
  · simp at succeeds
  cases table : outcome.table with
  | none => simp [table] at succeeds
  | some symbols =>
    simp only [table] at succeeds
    unfold hookDriver at succeeds
    by_cases enabled : 0#32 < params.hookDriver
    · simp only [enabled, if_true] at succeeds ⊢
      cases hooked : hookIxgbe m.getPte symbols m.own params.hookDriver w.image with
      | none => simp [hooked] at succeeds
      | some image =>
        simp only [hooked, Option.map_some] at succeeds
        exact ⟨symbols, image, rfl, hooked, succeeds⟩
    · simp only [enabled, if_false] at succeeds ⊢
      exact ⟨symbols, w.image, rfl, rfl, succeeds⟩

theorem finishInit_registers (succeeds : finishInit m params outcome w = .ok (0, loaded)) :
    ¬ outcome.miscRegister ≠ 0 := by
  intro failed
  rw [finishInit, if_pos failed] at succeeds
  simp only [Except.ok.injEq, Prod.mk.injEq] at succeeds
  exact absurd succeeds.1 failed

theorem finishInit_ok (succeeds : finishInit m params outcome w = .ok (0, loaded)) :
    loaded.image = w.image ∧ loaded.symbols = w.symbols ∧ loaded.packDev = w.device ∧
      (params.hookDevAddPack ≠ 0#32 →
        loaded.ptypeBase = w.ptypeBase.map (List.map (hookBase w.symbols m.own)) ∧
        loaded.ptypeAll = (hookAll m.own w.ptypeAll w.backupFunc).1 ∧
        loaded.backupFunc = (hookAll m.own w.ptypeAll w.backupFunc).2) := by
  rw [finishInit, if_neg (finishInit_registers succeeds)] at succeeds
  by_cases hooks : params.hookDevAddPack = 0#32
  · simp only [hooks, ne_eq, not_true_eq_false, if_false, Except.ok.injEq, Prod.mk.injEq,
      true_and] at succeeds
    subst succeeds
    exact ⟨rfl, rfl, rfl, fun enabled => absurd hooks enabled⟩
  · simp only [hooks, ne_eq, not_false_eq_true, if_true, hookHandlers] at succeeds
    split at succeeds
    · cases succeeds
    · rename_i hooked
      split at hooked
      · cases hooked
      · cases hooked
        simp only [Except.ok.injEq, Prod.mk.injEq, true_and] at succeeds
        subst succeeds
        exact ⟨rfl, rfl, rfl, fun _ => ⟨rfl, rfl, rfl⟩⟩

theorem finishInit_lists (enabled : params.hookDevAddPack ≠ 0#32)
    (succeeds : finishInit m params outcome w = .ok (0, loaded)) :
    w.symbols.ptypebase ≠ 0#64 ∧ w.symbols.ptypeall ≠ 0#64 := by
  rw [finishInit, if_neg (finishInit_registers succeeds)] at succeeds
  by_contra missing
  have nullList : w.symbols.ptypebase = 0#64 ∨ w.symbols.ptypeall = 0#64 := by
    by_contra both
    exact missing (not_or.mp both)
  simp only [enabled, ne_eq, not_false_eq_true, if_true, hookHandlers, nullList] at succeeds
  cases succeeds

theorem genpipeInit_reaches {symbols : Symbols} {image : Image} (device : outcome.device ≠ 0)
    (rx : outcome.rxBuffer ≠ 0) (tx : outcome.txBuffer ≠ 0) (table : outcome.table = some symbols)
    (driver : if 0#32 < params.hookDriver then
        hookIxgbe m.getPte symbols m.own params.hookDriver w.image = some image
      else image = w.image) :
    genpipeInit m params outcome w =
      finishInit m params outcome (prepared outcome symbols image w) := by
  have hooked : hookDriver m params (prepared outcome symbols w.image w) =
      some (prepared outcome symbols image w) := by
    unfold hookDriver
    split at driver
    · rename_i enabled
      rw [if_pos enabled]
      exact congrArg (Option.map fun image => prepared outcome symbols image w) driver
    · rename_i disabled
      rw [if_neg disabled, driver]
  simp only [genpipeInit, device, rx, tx, if_false, table]
  -- up to the hook of the driver the code has made the prepared world, but for the image
  change (match hookDriver m params (prepared outcome symbols w.image w) with
    | none => _
    | some w => finishInit m params outcome w) = _
  rw [hooked]

theorem genpipeInit_succeeds {symbols : Symbols} {image : Image} (device : outcome.device ≠ 0)
    (rx : outcome.rxBuffer ≠ 0) (tx : outcome.txBuffer ≠ 0) (table : outcome.table = some symbols)
    (driver : if 0#32 < params.hookDriver then
        hookIxgbe m.getPte symbols m.own params.hookDriver w.image = some image
      else image = w.image)
    (registers : outcome.miscRegister = 0) (lists : symbols.ptypebase ≠ 0#64 ∧ symbols.ptypeall ≠ 0#64) :
    ∃ loaded, genpipeInit m params outcome w = .ok (0, loaded) := by
  rw [genpipeInit_reaches device rx tx table driver]
  by_cases hooks : params.hookDevAddPack = 0#32
  · simp [finishInit, registers, hooks]
  · simp [finishInit, registers, hooks, hookHandlers, prepared, lists]

theorem genpipeCleanup_succeeds (lists : w.symbols.ptypebase ≠ 0#64 ∧ w.symbols.ptypeall ≠ 0#64) :
    ∃ unloaded, genpipeCleanup m params w = .ok unloaded := by
  by_cases hooks : params.hookDevAddPack = 0#32
  · simp [genpipeCleanup, hooks]
  · simp [genpipeCleanup, hooks, unhookHandlers, lists]

theorem freeBuffers_frame (w : World) :
    (freeBuffers w).image = w.image ∧ (freeBuffers w).ptypeAll = w.ptypeAll ∧
      (freeBuffers w).ptypeBase = w.ptypeBase ∧ (freeBuffers w).deviceRefs = w.deviceRefs := by
  unfold freeBuffers freeTx freeRx
  split <;> split <;> exact ⟨rfl, rfl, rfl, rfl⟩

theorem genpipeCleanup_ok (succeeds : genpipeCleanup m params w = .ok unloaded) :
    unloaded.image = w.image ∧
      (params.hookDevAddPack ≠ 0#32 →
        unloaded.ptypeBase = w.ptypeBase.map (List.map (unhookBase w.symbols m.own)) ∧
        unloaded.ptypeAll = unhookAll w.backupFunc w.ptypeAll) := by
  unfold genpipeCleanup at succeeds
  by_cases hooks : params.hookDevAddPack = 0#32
  · simp only [hooks, ne_eq, not_true_eq_false, if_false, Except.ok.injEq] at succeeds
    subst succeeds
    exact ⟨(freeBuffers_frame _).1, fun enabled => absurd hooks enabled⟩
  · simp only [hooks, ne_eq, not_false_eq_true, if_true, unhookHandlers] at succeeds
    split at succeeds
    · cases succeeds
    · rename_i unhooked
      split at unhooked
      · cases unhooked
      · cases unhooked
        cases succeeds
        obtain ⟨image, ptypeAll, ptypeBase, -⟩ := freeBuffers_frame
          { w with
            registered := false
            ptypeBase := w.ptypeBase.map (List.map (unhookBase w.symbols m.own))
            ptypeAll := unhookAll w.backupFunc w.ptypeAll }
        exact ⟨image, fun _ => ⟨ptypeBase, ptypeAll⟩⟩

/-! ## A kernel to load it into -/

def sampleSymbols : Symbols where
  kfreeskb := 0xffffffff81500100#64
  devkfreeskbany := 0xffffffff81500200#64
  netdevallocskb := 0xffffffff81500300#64
  netifrx := 0xffffffff81500400#64
  napigroreceive := 0xffffffff81500500#64
  netifreceiveskb := 0xffffffff81500600#64
  ixgbecleanrxirq := 0xffffffffa0000000#64
  arprcv := 0xffffffff81600100#64
  iprcv := 0xffffffff81600200#64
  ipv6rcv := 0xffffffff81600300#64
  ptypeall := 0xffffffff81d00000#64
  ptypebase := 0xffffffff81d00010#64
  driverTop := 0xffffffffa0000000
  driverBottom := 0xffffffffa0000005

def sampleLoaded : Loaded where
  own := {
    genpipeKfreeSkb := 0xffffffffa0100100#64
    genpipeDevKfreeSkbAny := 0xffffffffa0100200#64
    genpipeNetdevAllocSkb := 0xffffffffa0100300#64
    genpipeNetifRx := 0xffffffffa0100400#64
    genpipeNapiGroReceive := 0xffffffffa0100500#64
    genpipeNetifReceiveSkb := 0xffffffffa0100600#64
    genpipeArprcv := 0xffffffffa0100700#64
    genpipeIprcv := 0xffffffffa0100800#64
    genpipeIpv6rcv := 0xffffffffa0100900#64
    genpipeNop := 0xffffffffa0100a00#64 }
  getPte _ := some 0

def sampleOutcome : Outcome where
  device := 0xffff880010000000
  rxBuffer := 0xffff880020000000
  txBuffer := 0xffff880020100000
  table := some sampleSymbols
  miscRegister := 0

def sampleWorld (code : List Byte) (ptypeAll : List PacketType) : World where
  deviceRefs := 1
  allocated := []
  image := {
    memory := Memory.storeBytes (fun _ => 0) sampleSymbols.driverTop code
    ptes := fun _ => 0x161#64 }
  ptypeBase := List.replicate 16 []
  ptypeAll
  registered := false
  device := 0
  packDev := 0
  pbuf0 := {
    rxStartPtr := 0, rxEndPtr := 0, rxWritePtr := 0, rxReadPtr := 0
    txStartPtr := 0, txEndPtr := 0, txWritePtr := 0, txReadPtr := 0 }
  symbols := noSymbols sampleSymbols
  backupFunc := 0#64

end TestPrograms.Genpipe
