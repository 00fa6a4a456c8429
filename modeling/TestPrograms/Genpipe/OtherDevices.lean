import TestPrograms.Genpipe.HandlersRestored
import TestPrograms.Genpipe.Receive

/-! # Packets of other devices

While the module is loaded the handlers of the hash buckets see the packets of other devices
as without it.  An entry of `ptype_all` sees none at all, whatever the device.
-/

namespace TestPrograms.Genpipe

/-- The handler of an entry does not belong to the module. -/
def Foreign (own : Own) (ptype : PacketType) : Prop := ptype.func ∉ own.handlers

/-- A registration by another user. -/
def PackEvent.Foreign (own : Own) : PackEvent → Prop
  | .addBase _ ptype | .addAll ptype => Genpipe.Foreign own ptype
  | .removeBase .. | .removeAll _ => True

def World.Foreign (own : Own) (w : World) : Prop :=
  (∀ bucket ∈ w.ptypeBase, ∀ ptype ∈ bucket, Genpipe.Foreign own ptype) ∧
    ∀ ptype ∈ w.ptypeAll, Genpipe.Foreign own ptype

/-- A packet delivered to each entry comes to the handlers it comes to without the module. -/
def Unaffected (own : Own) (shared : Option Skb) (packet : Packet) (loaded plain : World) : Prop :=
  loaded.ptypeBase.map (List.map (deliver own loaded shared packet)) =
      plain.ptypeBase.map (List.map (deliverPlain packet)) ∧
    loaded.ptypeAll.map (deliver own loaded shared packet) =
      plain.ptypeAll.map (deliverPlain packet)

section

variable {m : Loaded} {params : Params} {outcome : Outcome} {w loaded : World}

/-- Two entries at one address, of which the first passes on what comes from other devices. -/
def Passes (own : Own) (w : World) (hooked original : PacketType) : Prop :=
  hooked.node = original.node ∧ ∀ shared packet, packet.dev ≠ w.packDev →
    deliver own w shared packet hooked = deliverPlain packet original

theorem passes_of_foreign {own : Own} {ptype : PacketType} (foreign : Foreign own ptype) :
    Passes own w ptype ptype :=
  ⟨rfl, fun shared _ _ => deliver_foreign shared foreign⟩

theorem passes_hookBase {own : Own} {ptype : PacketType} (distinct : own.handlers.Nodup)
    (foreign : Foreign own ptype) : Passes own w (hookBase w.symbols own ptype) ptype := by
  refine ⟨?_, fun shared packet other => deliver_hookBase shared distinct foreign other⟩
  unfold hookBase
  split
  · rfl
  split
  · rfl
  split <;> rfl

theorem base_unaffected (enabled : params.hookDevAddPack ≠ 0#32)
    (loads : genpipeInit m params outcome w = .ok (0, loaded)) (distinct : m.own.handlers.Nodup)
    (foreign : w.Foreign m.own) {events : List PackEvent}
    (others : ∀ event ∈ events, event.Foreign m.own) {packet : Packet}
    (other : packet.dev ≠ loaded.packDev) (shared : Option Skb) :
    (events.foldl baseEvent loaded.ptypeBase).map (List.map (deliver m.own loaded shared packet)) =
      (events.foldl baseEvent w.ptypeBase).map (List.map (deliverPlain packet)) := by
  have passes : List.Forall₂ (List.Forall₂ (Passes m.own loaded)) loaded.ptypeBase w.ptypeBase := by
    rw [(loaded_handlers enabled loads).1, List.forall₂_map_left_iff, List.forall₂_same]
    intro bucket member
    rw [List.forall₂_map_left_iff, List.forall₂_same]
    exact fun ptype there => passes_hookBase distinct (foreign.1 bucket member ptype there)
  have later := foldl_baseEvent_alike events (fun _ _ passes => passes.1)
    (fun bucket ptype member => passes_of_foreign (others _ member)) passes
  refine map_eq_of_forall₂ (later.imp fun hooked original bucket => ?_)
  exact map_eq_of_forall₂ (bucket.imp fun _ _ passes => passes.2 shared packet other)

/-- With the handlers hooked and the driver not, packets of other devices come to every handler
    they come to without the module, whatever is registered and removed in the meantime, if and
    only if no entry was in `ptype_all` when the module was loaded. -/
theorem other_devices_iff {add : BitVec 32} (enabled : add ≠ 0#32)
    (loads : genpipeInit m { hookDevAddPack := add, hookDriver := 0#32 } outcome w = .ok (0, loaded))
    (distinct : m.own.handlers.Nodup) (foreign : w.Foreign m.own) :
    (∀ events : List PackEvent, (∀ event ∈ events, event.Foreign m.own) →
      ∀ packet : Packet, packet.dev ≠ loaded.packDev → ∀ shared,
        Unaffected m.own shared packet (events.foldl packEvent loaded) (events.foldl packEvent w)) ↔
      w.ptypeAll = [] := by
  have hooked := (loaded_handlers enabled loads).2.1
  constructor
  · intro unaffected
    cases entries : w.ptypeAll with
    | nil => rfl
    | cons ptype rest =>
      -- the first packet of another device is dropped
      have same := (unaffected [] (fun _ member => nomatch member)
        { skb := { addr := 0, pktType := 0 }, dev := loaded.packDev + 1, dev2 := 0 }
        (Nat.succ_ne_self _) none).2
      rw [List.foldl_nil, List.foldl_nil, hooked, entries, List.map_cons, List.map_cons,
        List.map_cons] at same
      have dropped := (List.cons.inj same).1
      rw [deliver_nop none distinct rfl] at dropped
      exact absurd dropped dropSkb_ne_plain
  · intro empty events others packet other shared
    have all : List.Forall₂ (Passes m.own loaded) loaded.ptypeAll w.ptypeAll := by
      rw [hooked, empty]
      exact .nil
    have later := foldl_allEvent_alike events (fun _ _ passes => passes.1)
      (fun ptype member => passes_of_foreign (others _ member)) all
    rw [foldl_packEvent, foldl_packEvent]
    exact ⟨base_unaffected enabled loads distinct foreign others other shared,
      map_eq_of_forall₂ (later.imp fun _ _ passes => passes.2 shared packet other)⟩

theorem loaded_packDev (loads : genpipeInit m params outcome w = .ok (0, loaded)) :
    loaded.packDev = outcome.device := by
  obtain ⟨symbols, image, -, -, finishes⟩ := genpipeInit_ok loads
  exact (finishInit_ok finishes).2.2.1

end

/-! ## A packet socket on all devices -/

def samplePacket : Packet where
  skb := { addr := 0xffff880030000000, pktType := 0 }
  dev := 0xffff880010100000
  dev2 := 0xffff880010100000

theorem sampleLoaded_distinct : sampleLoaded.own.handlers.Nodup := by decide

theorem tap_loses_packets :
    let w := sampleWorld [] [{ node := 1#64, func := 0xffffffff81700100#64 }]
    ∃ loaded, genpipeInit sampleLoaded { hookDevAddPack := 1#32, hookDriver := 0#32 } sampleOutcome w =
        .ok (0, loaded) ∧
      w.Foreign sampleLoaded.own ∧ samplePacket.dev ≠ loaded.packDev ∧
      ¬ Unaffected sampleLoaded.own (some samplePacket.skb) samplePacket loaded w := by
  intro w
  obtain ⟨loaded, -, loads, -⟩ := sample_loads_handlers w.ptypeAll []
  refine ⟨loaded, loads, ?_, ?_, fun unaffected => ?_⟩
  · unfold World.Foreign Foreign
    decide
  · rw [loaded_packDev loads]
    decide
  · have same := unaffected.2
    rw [(loaded_handlers (by decide) loads).2.1] at same
    have dropped := (List.cons.inj same).1
    rw [deliver_nop _ sampleLoaded_distinct rfl] at dropped
    exact absurd dropped dropSkb_ne_plain

/-- ARP and IP are registered for every device, and no packet socket is open. -/
theorem other_devices_sample :
    let w := { sampleWorld [] [] with
      ptypeBase := List.replicate 16
        [{ node := 1#64, func := sampleSymbols.arprcv }, { node := 2#64, func := sampleSymbols.iprcv }] }
    ∃ loaded, genpipeInit sampleLoaded { hookDevAddPack := 1#32, hookDriver := 0#32 } sampleOutcome w =
        .ok (0, loaded) ∧
      ((∀ events : List PackEvent, (∀ event ∈ events, event.Foreign sampleLoaded.own) →
        ∀ packet : Packet, packet.dev ≠ loaded.packDev → ∀ shared,
          Unaffected sampleLoaded.own shared packet (events.foldl packEvent loaded)
            (events.foldl packEvent w)) ↔ w.ptypeAll = []) := by
  intro w
  have loads : ∃ loaded, genpipeInit sampleLoaded { hookDevAddPack := 1#32, hookDriver := 0#32 }
      sampleOutcome w = .ok (0, loaded) :=
    genpipeInit_succeeds (by decide) (by decide) (by decide) rfl rfl rfl (by decide)
  obtain ⟨loaded, loads⟩ := loads
  exact ⟨loaded, loads, other_devices_iff (by decide) loads sampleLoaded_distinct
    (by unfold World.Foreign Foreign; decide)⟩

end TestPrograms.Genpipe
