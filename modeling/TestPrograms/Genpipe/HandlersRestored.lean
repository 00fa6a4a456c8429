import TestPrograms.Genpipe.Module

/-! # The handlers of `ptype_all` after unloading

One variable takes the handler of each entry in turn, and in the end every entry gets
what is left in it: the handler of the entry that was last.
-/

namespace TestPrograms.Genpipe

def withFunc (func : Addr) (ptype : PacketType) : PacketType := { ptype with func }

/-- What `backup_func` holds after loading. -/
def lastHandler (w : World) : Addr := (w.ptypeAll.getLast?.map PacketType.func).getD w.backupFunc

theorem hookAll_eq (own : Own) (ptypes : List PacketType) (backupFunc : Addr) :
    hookAll own ptypes backupFunc = (ptypes.map (withFunc own.genpipeNop),
      (ptypes.getLast?.map PacketType.func).getD backupFunc) := by
  induction ptypes generalizing backupFunc with
  | nil => rfl
  | cons ptype rest ih =>
    rw [hookAll, ih]
    cases rest with
    | nil => rfl
    | cons second rest =>
      rw [List.getLast?_cons_cons, List.getLast?_eq_some_getLast (List.cons_ne_nil second rest)]
      rfl

/-! ## Loading, events, unloading -/

section

variable {m : Loaded} {params : Params} {outcome : Outcome} {w loaded unloaded : World}
  {events : List PackEvent}

/-- What a successful load makes of the handlers. -/
theorem loaded_handlers (enabled : params.hookDevAddPack ≠ 0#32)
    (loads : genpipeInit m params outcome w = .ok (0, loaded)) :
    loaded.ptypeBase = w.ptypeBase.map (List.map (hookBase loaded.symbols m.own)) ∧
      loaded.ptypeAll = w.ptypeAll.map (withFunc m.own.genpipeNop) ∧
      loaded.backupFunc = lastHandler w := by
  obtain ⟨symbols, image, -, -, finishes⟩ := genpipeInit_ok loads
  obtain ⟨-, found, -, hooked⟩ := finishInit_ok finishes
  obtain ⟨ptypeBase, ptypeAll, backup⟩ := hooked enabled
  rw [hookAll_eq] at ptypeAll backup
  exact ⟨found ▸ ptypeBase, ptypeAll, backup⟩

theorem unloaded_ptypeAll (enabled : params.hookDevAddPack ≠ 0#32)
    (loads : genpipeInit m params outcome w = .ok (0, loaded))
    (unloads : genpipeCleanup m params (events.foldl packEvent loaded) = .ok unloaded) :
    unloaded.ptypeAll = (events.foldl allEvent w.ptypeAll).map (withFunc (lastHandler w)) := by
  obtain ⟨-, ptypeAll, backup⟩ := loaded_handlers enabled loads
  have overwritten := ((genpipeCleanup_ok unloads).2 enabled).2
  rw [foldl_packEvent] at overwritten
  dsimp only at overwritten
  rw [backup] at overwritten
  -- what the load put into the entries is overwritten whatever it was
  have agree : List.Forall₂ (fun a b => withFunc (lastHandler w) a = withFunc (lastHandler w) b)
      loaded.ptypeAll w.ptypeAll := by
    rw [ptypeAll, List.forall₂_map_left_iff, List.forall₂_same]
    intro ptype _
    rfl
  have nodes : ∀ a b, withFunc (lastHandler w) a = withFunc (lastHandler w) b → a.node = b.node := by
    intro a b same
    simp only [withFunc, PacketType.mk.injEq] at same
    exact same.1
  have later := foldl_allEvent_alike events nodes (fun _ _ => rfl) agree
  exact overwritten.trans (map_eq_of_forall₂ later)

/-- After a load, any registrations and removals and an unload, the entries that are left
    have their own handlers, and none is NULL or `genpipe_nop`, exactly when each of them
    has the handler of the last entry at load time and that is neither. -/
theorem handlers_restored_iff (enabled : params.hookDevAddPack ≠ 0#32)
    (loads : genpipeInit m params outcome w = .ok (0, loaded))
    (unloads : genpipeCleanup m params (events.foldl packEvent loaded) = .ok unloaded) :
    (unloaded.ptypeAll = events.foldl allEvent w.ptypeAll ∧
        ∀ ptype ∈ unloaded.ptypeAll, ptype.func ≠ 0#64 ∧ ptype.func ≠ m.own.genpipeNop) ↔
      ∀ ptype ∈ events.foldl allEvent w.ptypeAll,
        ptype.func = lastHandler w ∧ lastHandler w ≠ 0#64 ∧ lastHandler w ≠ m.own.genpipeNop := by
  have left := unloaded_ptypeAll enabled loads unloads
  constructor
  · rintro ⟨same, sound⟩ ptype member
    have there : ptype ∈ unloaded.ptypeAll := same ▸ member
    obtain ⟨_, _, handler⟩ := List.mem_map.mp (left ▸ there)
    have func : ptype.func = lastHandler w := handler ▸ rfl
    exact ⟨func, func ▸ sound ptype there⟩
  · intro alike
    have same : unloaded.ptypeAll = events.foldl allEvent w.ptypeAll := by
      rw [left]
      conv_rhs => rw [← List.map_id (events.foldl allEvent w.ptypeAll)]
      apply List.map_congr_left
      intro ptype member
      rw [withFunc, ← (alike ptype member).1]
      rfl
    refine ⟨same, fun ptype there => ?_⟩
    obtain ⟨func, sound⟩ := alike ptype (same ▸ there)
    rw [func]
    exact sound

end

/-! ## Two packet sockets -/

theorem sample_loads_handlers (ptypeAll : List PacketType) (events : List PackEvent) :
    ∃ loaded unloaded,
      genpipeInit sampleLoaded { hookDevAddPack := 1#32, hookDriver := 0#32 } sampleOutcome
        (sampleWorld [] ptypeAll) = .ok (0, loaded) ∧
      genpipeCleanup sampleLoaded { hookDevAddPack := 1#32, hookDriver := 0#32 }
        (events.foldl packEvent loaded) = .ok unloaded := by
  have loads : ∃ loaded, genpipeInit sampleLoaded { hookDevAddPack := 1#32, hookDriver := 0#32 }
      sampleOutcome (sampleWorld [] ptypeAll) = .ok (0, loaded) :=
    genpipeInit_succeeds (by decide) (by decide) (by decide) rfl rfl rfl (by decide)
  obtain ⟨loaded, loads⟩ := loads
  obtain ⟨symbols, image, table, -, finishes⟩ := genpipeInit_ok loads
  obtain rfl : sampleSymbols = symbols := Option.some.inj table
  have found : (events.foldl packEvent loaded).symbols = sampleSymbols := by
    rw [foldl_packEvent]
    exact (finishInit_ok finishes).2.1
  have lists : (events.foldl packEvent loaded).symbols.ptypebase ≠ 0#64 ∧
      (events.foldl packEvent loaded).symbols.ptypeall ≠ 0#64 := by
    rw [found]
    decide
  obtain ⟨unloaded, unloads⟩ := genpipeCleanup_succeeds lists
  exact ⟨loaded, unloaded, loads, unloads⟩

/-- Of two packet sockets with handlers of their own, both end up with the second one's. -/
theorem handler_overwritten :
    let w := sampleWorld [] [{ node := 1#64, func := 0xffffffff81700100#64 },
      { node := 2#64, func := 0xffffffff81700200#64 }]
    let events : List PackEvent := []
    ∃ loaded unloaded,
      genpipeInit sampleLoaded { hookDevAddPack := 1#32, hookDriver := 0#32 } sampleOutcome w =
        .ok (0, loaded) ∧
      genpipeCleanup sampleLoaded { hookDevAddPack := 1#32, hookDriver := 0#32 }
        (events.foldl packEvent loaded) = .ok unloaded ∧
      ¬ unloaded.ptypeAll = events.foldl allEvent w.ptypeAll := by
  intro w events
  obtain ⟨loaded, unloaded, loads, unloads⟩ := sample_loads_handlers w.ptypeAll events
  refine ⟨loaded, unloaded, loads, unloads, ?_⟩
  rw [unloaded_ptypeAll (by decide) loads unloads]
  decide

/-- One packet socket is replaced by another of its kind while the module is loaded. -/
theorem handlers_restored_sample :
    let w := sampleWorld [] [{ node := 1#64, func := 0xffffffff81700100#64 }]
    let events : List PackEvent :=
      [.addAll { node := 2#64, func := 0xffffffff81700100#64 }, .removeAll 1#64]
    ∃ unloaded : World,
      (unloaded.ptypeAll = events.foldl allEvent w.ptypeAll ∧
          ∀ ptype ∈ unloaded.ptypeAll, ptype.func ≠ 0#64 ∧
            ptype.func ≠ sampleLoaded.own.genpipeNop) ↔
        ∀ ptype ∈ events.foldl allEvent w.ptypeAll,
          ptype.func = lastHandler w ∧ lastHandler w ≠ 0#64 ∧
            lastHandler w ≠ sampleLoaded.own.genpipeNop := by
  intro w events
  obtain ⟨loaded, unloaded, loads, unloads⟩ := sample_loads_handlers w.ptypeAll events
  exact ⟨unloaded, handlers_restored_iff (by decide) loads unloads⟩

end TestPrograms.Genpipe
