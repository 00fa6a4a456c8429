import TestPrograms.Genpipe.HandlersRestored

/-! # The handlers of `ptype_base` after unloading

Here each handler has a replacement of its own, so that what loading does to an entry can be
undone whatever becomes of the lists in between.
-/

namespace TestPrograms.Genpipe

/-- The functions of the module that the kernel gets to know. -/
def Own.functions (own : Own) : List Addr :=
  [own.genpipeKfreeSkb, own.genpipeDevKfreeSkbAny, own.genpipeNetdevAllocSkb, own.genpipeNetifRx,
    own.genpipeNapiGroReceive, own.genpipeNetifReceiveSkb, own.genpipeArprcv, own.genpipeIprcv,
    own.genpipeIpv6rcv, own.genpipeNop]

/-- Different functions have different addresses. -/
structure Own.Apart (own : Own) (symbols : Symbols) : Prop where
  distinct : own.functions.Nodup
  arprcv : symbols.arprcv ∉ own.functions
  iprcv : symbols.iprcv ∉ own.functions
  ipv6rcv : symbols.ipv6rcv ∉ own.functions

/-- The handler is not one of the module's. -/
def ForeignHandler (own : Own) (ptype : PacketType) : Prop := ptype.func ∉ own.functions

instance (own : Own) (ptype : PacketType) : Decidable (ForeignHandler own ptype) :=
  inferInstanceAs (Decidable (¬ _))

/-! ## One entry -/

section

variable {own : Own} {symbols : Symbols} {ptype : PacketType}

theorem hookBase_node (symbols : Symbols) (own : Own) (ptype : PacketType) :
    (hookBase symbols own ptype).node = ptype.node := by
  unfold hookBase
  split_ifs <;> rfl

theorem unhookBase_foreign (foreign : ForeignHandler own ptype) : unhookBase symbols own ptype = ptype := by
  have others : ptype.func ≠ own.genpipeArprcv ∧ ptype.func ≠ own.genpipeIprcv ∧
      ptype.func ≠ own.genpipeIpv6rcv := by
    refine ⟨?_, ?_, ?_⟩ <;> rintro same <;> exact foreign (by simp [Own.functions, same])
  rw [unhookBase, if_neg others.1, if_neg others.2.1, if_neg others.2.2]

theorem unhookBase_hookBase (apart : own.Apart symbols) (foreign : ForeignHandler own ptype) :
    unhookBase symbols own (hookBase symbols own ptype) = ptype := by
  have distinct := apart.distinct
  simp only [Own.functions, List.nodup_cons, List.mem_cons, List.not_mem_nil, or_false, not_or] at distinct
  unfold hookBase
  split_ifs with arp ip ipv6
  · rw [unhookBase, if_pos rfl, ← arp]
  · rw [unhookBase, if_neg (by grind), if_pos rfl, ← ip]
  · rw [unhookBase, if_neg (by grind), if_neg (by grind), if_pos rfl, ← ipv6]
  · exact unhookBase_foreign foreign

theorem hookBase_replaced (apart : own.Apart symbols) (ptype : PacketType) :
    (hookBase symbols own ptype).func ≠ symbols.arprcv ∧
      (hookBase symbols own ptype).func ≠ symbols.iprcv ∧
      (hookBase symbols own ptype).func ≠ symbols.ipv6rcv := by
  obtain ⟨-, arprcv, iprcv, ipv6rcv⟩ := apart
  have others (func : Addr) (inModule : func ∈ own.functions) :
      func ≠ symbols.arprcv ∧ func ≠ symbols.iprcv ∧ func ≠ symbols.ipv6rcv :=
    ⟨ne_of_mem_of_not_mem inModule arprcv, ne_of_mem_of_not_mem inModule iprcv,
      ne_of_mem_of_not_mem inModule ipv6rcv⟩
  unfold hookBase
  split_ifs with arp ip ipv6
  · exact others _ (by simp [Own.functions])
  · exact others _ (by simp [Own.functions])
  · exact others _ (by simp [Own.functions])
  · exact ⟨arp, ip, ipv6⟩

end

/-! ## The buckets -/

def Registered (events : List PackEvent) (ptype : PacketType) : Prop :=
  ∃ bucket, .addBase bucket ptype ∈ events

theorem mem_of_mem_modify {α : Type} {xs : List α} {place : Nat} {change : α → α} {x : α}
    (member : x ∈ xs.modify place change) : x ∈ xs ∨ ∃ y ∈ xs, change y = x := by
  obtain ⟨i, there⟩ := List.mem_iff_getElem?.mp member
  rw [List.getElem?_modify, Option.map_eq_map, Option.map_eq_some_iff] at there
  obtain ⟨y, found, same⟩ := there
  split at same
  · exact .inr ⟨y, List.mem_of_getElem? found, same⟩
  · exact .inl (same ▸ List.mem_of_getElem? found)

theorem mem_baseEvent {event : PackEvent} {buckets : List (List PacketType)} {bucket : List PacketType}
    {ptype : PacketType} (there : bucket ∈ baseEvent buckets event) (member : ptype ∈ bucket) :
    (∃ place, event = .addBase place ptype) ∨ ∃ bucket ∈ buckets, ptype ∈ bucket := by
  cases event with
  | addAll | removeAll => exact .inr ⟨bucket, there, member⟩
  | addBase place added =>
    rcases mem_of_mem_modify there with old | ⟨before, old, rfl⟩
    · exact .inr ⟨bucket, old, member⟩
    · rcases List.mem_cons.mp member with rfl | kept
      · exact .inl ⟨place, rfl⟩
      · exact .inr ⟨before, old, kept⟩
  | removeBase place node =>
    rcases mem_of_mem_modify there with old | ⟨before, old, rfl⟩
    · exact .inr ⟨bucket, old, member⟩
    · exact .inr ⟨before, old, (List.mem_filter.mp member).1⟩

theorem mem_foldl_baseEvent {events : List PackEvent} {buckets : List (List PacketType)}
    {bucket : List PacketType} {ptype : PacketType} (there : bucket ∈ events.foldl baseEvent buckets)
    (member : ptype ∈ bucket) :
    Registered events ptype ∨ ∃ bucket ∈ buckets, ptype ∈ bucket := by
  induction events generalizing buckets with
  | nil => exact .inr ⟨bucket, there, member⟩
  | cons event events ih =>
    rcases ih there with ⟨place, later⟩ | ⟨before, changed, member⟩
    · exact .inl ⟨place, List.mem_cons_of_mem _ later⟩
    · rcases mem_baseEvent changed member with ⟨place, rfl⟩ | old
      · exact .inl ⟨place, List.mem_cons_self⟩
      · exact .inr old

/-! ## Loading, events, unloading -/

section

variable {m : Loaded} {params : Params} {outcome : Outcome} {symbols : Symbols} {w loaded : World}
  {events : List PackEvent}

theorem loaded_symbols (table : outcome.table = some symbols)
    (loads : genpipeInit m params outcome w = .ok (0, loaded)) : loaded.symbols = symbols := by
  obtain ⟨found, image, table', -, finishes⟩ := genpipeInit_ok loads
  obtain rfl : found = symbols := Option.some.inj (table'.symm.trans table)
  exact (finishInit_ok finishes).2.1

/-- Undoing the hooks gives what the events would have made of the lists as they were. -/
theorem unhooked_ptypeBase (apart : m.own.Apart symbols)
    (foreign : ∀ bucket ∈ w.ptypeBase, ∀ ptype ∈ bucket, ForeignHandler m.own ptype)
    (registered : ∀ ptype, Registered events ptype → ForeignHandler m.own ptype) :
    (events.foldl baseEvent (w.ptypeBase.map (List.map (hookBase symbols m.own)))).map
        (List.map (unhookBase symbols m.own)) =
      events.foldl baseEvent w.ptypeBase := by
  let Alike (a b : PacketType) : Prop := a.node = b.node ∧ unhookBase symbols m.own a = b
  have start : List.Forall₂ (List.Forall₂ Alike)
      (w.ptypeBase.map (List.map (hookBase symbols m.own))) w.ptypeBase := by
    rw [List.forall₂_map_left_iff, List.forall₂_same]
    intro bucket there
    rw [List.forall₂_map_left_iff, List.forall₂_same]
    intro ptype member
    exact ⟨hookBase_node _ _ _, unhookBase_hookBase apart (foreign bucket there ptype member)⟩
  have later := foldl_baseEvent_alike events (fun _ _ same => same.1)
    (fun place ptype added => ⟨rfl, unhookBase_foreign (registered ptype ⟨place, added⟩)⟩) start
  have restored := map_eq_of_forall₂ (g := id) (later.imp fun a b same =>
    (map_eq_of_forall₂ (g := id) (same.imp fun _ _ both => both.2)).trans (List.map_id b))
  rwa [List.map_id] at restored

/-- Loaded with the hooks, after any registrations and removals, no entry there since before has
    one of the three protocol handlers; and unloading then leaves the entries as they would be
    had the module never been there, with none that leads into it. -/
theorem ptype_base_restored (enabled : params.hookDevAddPack ≠ 0#32) (table : outcome.table = some symbols)
    (apart : m.own.Apart symbols) (loads : genpipeInit m params outcome w = .ok (0, loaded))
    (foreign : ∀ bucket ∈ w.ptypeBase, ∀ ptype ∈ bucket, ForeignHandler m.own ptype)
    (registered : ∀ ptype, Registered events ptype → ForeignHandler m.own ptype) :
    (∀ bucket ∈ (events.foldl packEvent loaded).ptypeBase, ∀ ptype ∈ bucket,
      (∀ added, Registered events added → added.node ≠ ptype.node) →
      ptype.func ≠ symbols.arprcv ∧ ptype.func ≠ symbols.iprcv ∧ ptype.func ≠ symbols.ipv6rcv) ∧
    ∃ unloaded, genpipeCleanup m params (events.foldl packEvent loaded) = .ok unloaded ∧
      unloaded.ptypeBase = events.foldl baseEvent w.ptypeBase ∧
      ∀ bucket ∈ unloaded.ptypeBase, ∀ ptype ∈ bucket, ForeignHandler m.own ptype := by
  have same := loaded_symbols table loads
  have hooks := (loaded_handlers enabled loads).1
  rw [same] at hooks
  have later : (events.foldl packEvent loaded).ptypeBase =
      events.foldl baseEvent (w.ptypeBase.map (List.map (hookBase symbols m.own))) := by
    rw [foldl_packEvent, hooks]
  have found : (events.foldl packEvent loaded).symbols = symbols := by rw [foldl_packEvent, same]
  constructor
  · intro bucket there ptype member since
    rw [later] at there
    rcases mem_foldl_baseEvent there member with added | ⟨before, old, member⟩
    · exact absurd rfl (since ptype added)
    · obtain ⟨_, _, rfl⟩ := List.mem_map.mp old
      obtain ⟨original, -, rfl⟩ := List.mem_map.mp member
      exact hookBase_replaced apart original
  · obtain ⟨symbols', image, table', -, finishes⟩ := genpipeInit_ok loads
    have lists := finishInit_lists enabled finishes
    obtain rfl : symbols' = symbols := Option.some.inj (table'.symm.trans table)
    obtain ⟨unloaded, unloads⟩ : ∃ unloaded,
        genpipeCleanup m params (events.foldl packEvent loaded) = .ok unloaded :=
      genpipeCleanup_succeeds (by rw [found]; exact lists)
    have restored := ((genpipeCleanup_ok unloads).2 enabled).1
    rw [found, later, unhooked_ptypeBase apart foreign registered] at restored
    refine ⟨unloaded, unloads, restored, fun bucket there ptype member => ?_⟩
    rw [restored] at there
    rcases mem_foldl_baseEvent there member with added | ⟨before, old, member⟩
    · exact registered ptype added
    · exact foreign before old ptype member

end

/-- ARP is there before the module; IP is registered while it is loaded, for another network device. -/
theorem ptype_base_sample :
    let w := { sampleWorld [] [] with
      ptypeBase := List.replicate 16 [{ node := 1#64, func := sampleSymbols.arprcv }] }
    let events : List PackEvent := [.addBase 8 { node := 2#64, func := sampleSymbols.iprcv }, .removeBase 3 1#64]
    ∃ loaded unloaded,
      genpipeInit sampleLoaded { hookDevAddPack := 1#32, hookDriver := 0#32 } sampleOutcome w =
        .ok (0, loaded) ∧
      genpipeCleanup sampleLoaded { hookDevAddPack := 1#32, hookDriver := 0#32 }
        (events.foldl packEvent loaded) = .ok unloaded ∧
      unloaded.ptypeBase = events.foldl baseEvent w.ptypeBase := by
  intro w events
  have loads : ∃ loaded, genpipeInit sampleLoaded { hookDevAddPack := 1#32, hookDriver := 0#32 }
      sampleOutcome w = .ok (0, loaded) :=
    genpipeInit_succeeds (by decide) (by decide) (by decide) rfl rfl rfl (by decide)
  obtain ⟨loaded, loads⟩ := loads
  have apart : sampleLoaded.own.Apart sampleSymbols := ⟨by decide, by decide, by decide, by decide⟩
  have registered : ∀ ptype, Registered events ptype → ForeignHandler sampleLoaded.own ptype := by
    rintro ptype ⟨place, member⟩
    simp only [events, List.mem_cons, PackEvent.addBase.injEq, reduceCtorEq, List.not_mem_nil,
      or_false] at member
    obtain ⟨-, rfl⟩ := member
    decide
  obtain ⟨-, unloaded, unloads, restored, -⟩ :=
    ptype_base_restored (by decide) rfl apart loads (by decide) registered
  exact ⟨loaded, unloaded, loads, unloads, restored⟩

end TestPrograms.Genpipe
