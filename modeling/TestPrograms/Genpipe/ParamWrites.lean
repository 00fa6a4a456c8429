import TestPrograms.Genpipe.Lifecycle

/-! # Parameters that change while the module is in

Loading hooks the handlers if `hook_dev_add_pack` is set at that time, and unloading gives them
back if it is set by then.  What the unload leaves behind depends on both, on the entries there
were and on those that have come and gone.
-/

namespace TestPrograms.Genpipe

open TestPrograms.Foundations

/-! ## Entries that stay -/

def removedAll (events : List PackEvent) : List Addr :=
  events.filterMap fun
    | .removeAll node => some node
    | .addAll _ | .addBase .. | .removeBase .. => none

/-- The entries that no event has removed. -/
def survivors (events : List PackEvent) (ptypes : List PacketType) : List PacketType :=
  ptypes.filter fun ptype => ptype.node ∉ removedAll events

/-- The events of one bucket, as events of a list. -/
def eventsAt (bucket : Nat) (events : List PackEvent) : List PackEvent :=
  events.filterMap fun
    | .addBase place ptype => if place = bucket then some (.addAll ptype) else none
    | .removeBase place node => if place = bucket then some (.removeAll node) else none
    | .addAll _ | .removeAll _ => none

theorem survivors_nil (ptypes : List PacketType) : survivors [] ptypes = ptypes := by
  simp [survivors, removedAll]

/-- What events make of a list: what they make of none, and the entries that stay. -/
theorem foldl_allEvent_eq (events : List PackEvent) (ptypes : List PacketType) :
    events.foldl allEvent ptypes = events.foldl allEvent [] ++ survivors events ptypes := by
  induction events generalizing ptypes with
  | nil => rw [survivors_nil]; rfl
  | cons event events ih =>
    rw [List.foldl_cons, List.foldl_cons, ih (allEvent ptypes event), ih (allEvent [] event),
      List.append_assoc]
    congr 1
    cases event with
    | addBase | removeBase => rfl
    | addAll ptype =>
      have same : removedAll (.addAll ptype :: events) = removedAll events := rfl
      simp only [survivors, allEvent, addPack, same]
      rw [← List.filter_append]
      rfl
    | removeAll node =>
      have more : removedAll (.removeAll node :: events) = node :: removedAll events := rfl
      simp only [survivors, allEvent, removePack, more, List.filter_nil, List.nil_append,
        List.filter_filter, List.mem_cons, not_or]
      refine List.filter_congr fun ptype _ => ?_
      rw [Bool.and_comm, ← Bool.decide_and]

theorem foldl_baseEvent_getElem? (events : List PackEvent) (buckets : List (List PacketType)) (i : Nat) :
    (events.foldl baseEvent buckets)[i]? =
      buckets[i]?.map fun bucket => (eventsAt i events).foldl allEvent bucket := by
  induction events generalizing buckets with
  | nil => exact Option.map_id'.symm
  | cons event events ih =>
    rw [List.foldl_cons, ih]
    cases event with
    | addAll | removeAll => rfl
    | addBase place ptype =>
      rw [baseEvent, List.getElem?_modify]
      by_cases here : place = i
      · simp [here, eventsAt, Function.comp_def, allEvent]
      · simp [here, eventsAt]
    | removeBase place node =>
      rw [baseEvent, List.getElem?_modify]
      by_cases here : place = i
      · simp [here, eventsAt, Function.comp_def, allEvent]
      · simp [here, eventsAt]

/-! ## Between a load and an unload -/

/-- Registrations, removals and writes to the parameters. -/
def Life.WhileIn : Life → Prop
  | .pack _ | .setParams _ => True
  | .insmod .. | .rmmod => False

def packs (events : List Life) : List PackEvent :=
  events.filterMap fun
    | .pack event => some event
    | .insmod .. | .setParams _ | .rmmod => none

def paramsAfter (params : Params) (events : List Life) : Params :=
  events.foldl (fun params event =>
    match event with
    | .setParams params => params
    | .insmod .. | .pack _ | .rmmod => params) params

section

variable {m : Loaded} {params : Params} {outcome : Outcome} {w loaded : World} {events : List Life}

theorem run_whileIn (middle : ∀ event ∈ events, event.WhileIn) (w : World) (params : Params) :
    run Machine.live ⟨w, some (m, params)⟩ events =
      .ok ⟨(packs events).foldl packEvent w, some (m, paramsAfter params events)⟩ := by
  induction events generalizing w params with
  | nil => rfl
  | cons event events ih =>
    have later := ih fun next member => middle next (List.mem_cons_of_mem _ member)
    have first := middle event List.mem_cons_self
    cases event with
    | insmod | rmmod => exact first.elim
    | pack event => exact later (packEvent w event) params
    | setParams changed => exact later w changed

/-- A load, what happens while the module is in, and its unload. -/
theorem run_load_unload {final : Machine} (middle : ∀ event ∈ events, event.WhileIn)
    (loads : genpipeInit m params outcome (fresh w) = .ok (0, loaded))
    (runs : run Machine.live ⟨w, none⟩ (.insmod m params outcome :: events ++ [.rmmod]) = .ok final) :
    genpipeCleanup m (paramsAfter params events) ((packs events).foldl packEvent loaded) =
      .ok final.world := by
  have first : Machine.live ⟨w, none⟩ (.insmod m params outcome) = .ok ⟨loaded, some (m, params)⟩ := by
    simp only [Machine.live, loads]
    rfl
  rw [List.cons_append, run_cons_ok _ first, run_append_ok _ (run_whileIn middle loaded params)] at runs
  obtain ⟨next, unloads, ends⟩ := run_cons_inv runs
  cases ends
  simp only [Machine.live] at unloads
  split at unloads
  · cases unloads
  · rename_i world cleans
    cases unloads
    exact cleans

/-! ## The handlers that are left -/

theorem cleanup_unhooked (off : params.hookDevAddPack = 0#32) {left : World}
    (unloads : genpipeCleanup m params w = .ok left) :
    left.ptypeBase = w.ptypeBase ∧ left.ptypeAll = w.ptypeAll := by
  simp only [genpipeCleanup, off, ne_eq, not_true_eq_false, if_false, Except.ok.injEq] at unloads
  subst unloads
  obtain ⟨-, ptypeAll, ptypeBase, -⟩ := freeBuffers_frame { w with registered := false }
  exact ⟨ptypeBase, ptypeAll⟩

theorem loaded_unhooked (off : params.hookDevAddPack = 0#32)
    (loads : genpipeInit m params outcome w = .ok (0, loaded)) :
    loaded.ptypeBase = w.ptypeBase ∧ loaded.ptypeAll = w.ptypeAll ∧ loaded.backupFunc = w.backupFunc := by
  obtain ⟨symbols, image, -, -, finishes⟩ := genpipeInit_ok loads
  rw [finishInit, if_neg (finishInit_registers finishes)] at finishes
  simp only [off, ne_eq, not_true_eq_false, if_false, Except.ok.injEq, Prod.mk.injEq, true_and] at finishes
  subst finishes
  exact ⟨rfl, rfl, rfl⟩

end

/-- The handler can be called when the module is gone. -/
def SoundHandler (own : Own) (ptype : PacketType) : Prop := ptype.func ≠ 0#64 ∧ ForeignHandler own ptype

instance (own : Own) (ptype : PacketType) : Decidable (SoundHandler own ptype) :=
  inferInstanceAs (Decidable (_ ∧ _))

structure AllSound (own : Own) (ptypeBase : List (List PacketType)) (ptypeAll : List PacketType) :
    Prop where
  base : ∀ bucket ∈ ptypeBase, ∀ ptype ∈ bucket, SoundHandler own ptype
  all : ∀ ptype ∈ ptypeAll, SoundHandler own ptype

def PackEvent.Sound (own : Own) : PackEvent → Prop
  | .addBase _ ptype | .addAll ptype => SoundHandler own ptype
  | .removeBase .. | .removeAll _ => True

section

variable {own : Own} {symbols : Symbols} {ptype : PacketType} {events : List PackEvent}
  {ptypes : List PacketType} {buckets : List (List PacketType)}

theorem survivors_map {change : PacketType → PacketType} (nodes : ∀ ptype, (change ptype).node = ptype.node)
    (events : List PackEvent) (ptypes : List PacketType) :
    survivors events (ptypes.map change) = (survivors events ptypes).map change := by
  rw [survivors, survivors, List.filter_map]
  congr 1
  refine List.filter_congr fun ptype _ => ?_
  rw [Function.comp_apply, nodes]

theorem mem_allEvent {event : PackEvent} (member : ptype ∈ allEvent ptypes event) :
    event = .addAll ptype ∨ ptype ∈ ptypes := by
  cases event with
  | addBase | removeBase => exact .inr member
  | addAll added =>
    cases List.mem_cons.mp member with
    | inl same => exact .inl (same ▸ rfl)
    | inr old => exact .inr old
  | removeAll node => exact .inr (List.mem_filter.mp member).1

theorem foldl_allEvent_sound (added : ∀ event ∈ events, event.Sound own)
    (sound : ∀ ptype ∈ ptypes, SoundHandler own ptype) :
    ∀ ptype ∈ events.foldl allEvent ptypes, SoundHandler own ptype := by
  induction events generalizing ptypes with
  | nil => exact sound
  | cons event events ih =>
    refine ih (fun later member => added later (List.mem_cons_of_mem _ member)) fun ptype member => ?_
    cases mem_allEvent member with
    | inl new =>
      have here := added event List.mem_cons_self
      rw [new] at here
      exact here
    | inr old => exact sound ptype old

theorem foldl_baseEvent_sound (added : ∀ event ∈ events, event.Sound own)
    (sound : ∀ bucket ∈ buckets, ∀ ptype ∈ bucket, SoundHandler own ptype) :
    ∀ bucket ∈ events.foldl baseEvent buckets, ∀ ptype ∈ bucket, SoundHandler own ptype := by
  intro bucket there ptype member
  rcases mem_foldl_baseEvent there member with ⟨place, new⟩ | ⟨before, old, among⟩
  · exact added _ new
  · exact sound before old ptype among

theorem eventsAt_sound (added : ∀ event ∈ events, event.Sound own) (i : Nat) :
    ∀ event ∈ eventsAt i events, event.Sound own := by
  intro event member
  obtain ⟨source, there, becomes⟩ := List.mem_filterMap.mp member
  have sound := added source there
  cases source with
  | addAll | removeAll => cases becomes
  | addBase place ptype =>
    simp only [Option.ite_none_right_eq_some, Option.some.injEq] at becomes
    obtain ⟨-, rfl⟩ := becomes
    exact sound
  | removeBase place node =>
    simp only [Option.ite_none_right_eq_some, Option.some.injEq] at becomes
    obtain ⟨-, rfl⟩ := becomes
    trivial

theorem withFunc_nop_unsound (own : Own) (ptype : PacketType) :
    ¬ SoundHandler own (withFunc own.genpipeNop ptype) := by
  intro sound
  exact sound.2 (by simp [withFunc, Own.functions])

/-- An entry that the load has hooked leads into the module. -/
theorem hookBase_sound_iff (sound : SoundHandler own ptype) :
    SoundHandler own (hookBase symbols own ptype) ↔
      ptype.func ∉ [symbols.arprcv, symbols.iprcv, symbols.ipv6rcv] := by
  unfold hookBase
  split_ifs with arp ip ipv6
  · exact iff_of_false (fun hooked => hooked.2 (by simp [Own.functions])) (by simp [arp])
  · exact iff_of_false (fun hooked => hooked.2 (by simp [Own.functions])) (by simp [ip])
  · exact iff_of_false (fun hooked => hooked.2 (by simp [Own.functions])) (by simp [ipv6])
  · exact iff_of_true sound (by simp [arp, ip, ipv6])

theorem unhookAll_sound_iff (backupFunc : Addr) (ptypes : List PacketType) :
    (∀ ptype ∈ unhookAll backupFunc ptypes, SoundHandler own ptype) ↔
      ptypes = [] ∨ backupFunc ≠ 0#64 ∧ backupFunc ∉ own.functions := by
  cases ptypes with
  | nil => exact iff_of_true (fun ptype member => absurd member List.not_mem_nil) (.inl rfl)
  | cons first rest =>
    simp only [unhookAll, List.forall_mem_map, reduceCtorEq, false_or]
    exact ⟨fun all => all first List.mem_cons_self, fun sound ptype _ => sound⟩

end

section

variable {m : Loaded} {params now : Params} {outcome : Outcome} {symbols : Symbols} {w loaded left : World}
  {events : List PackEvent}

theorem lastHandler_sound_iff {own : Own} (sound : ∀ ptype ∈ w.ptypeAll, SoundHandler own ptype) :
    lastHandler (fresh w) ≠ 0#64 ∧ lastHandler (fresh w) ∉ own.functions ↔ w.ptypeAll ≠ [] := by
  have same : lastHandler (fresh w) = (w.ptypeAll.getLast?.map PacketType.func).getD 0#64 := rfl
  rw [same]
  by_cases empty : w.ptypeAll = []
  · rw [empty]
    exact iff_of_false (fun handler => handler.1 rfl) (fun some => some rfl)
  · rw [List.getLast?_eq_some_getLast empty]
    exact iff_of_true (sound _ (List.getLast_mem empty)) empty

theorem foldl_allEvent_hooked_nil_iff (own : Own) (events : List PackEvent) (ptypes : List PacketType) :
    events.foldl allEvent (ptypes.map (withFunc own.genpipeNop)) = [] ↔
      events.foldl allEvent ptypes = [] := by
  have nodes : ∀ ptype, (withFunc own.genpipeNop ptype).node = ptype.node := fun _ => rfl
  rw [foldl_allEvent_eq, survivors_map nodes, foldl_allEvent_eq events ptypes]
  simp only [List.append_eq_nil_iff, List.map_eq_nil_iff]

/-- Of the hooked entries of `ptype_all` none may stay. -/
theorem hooked_all_sound_iff {own : Own} (added : ∀ event ∈ events, event.Sound own)
    (ptypes : List PacketType) :
    (∀ ptype ∈ events.foldl allEvent (ptypes.map (withFunc own.genpipeNop)), SoundHandler own ptype) ↔
      survivors events ptypes = [] := by
  have nodes : ∀ ptype, (withFunc own.genpipeNop ptype).node = ptype.node := fun _ => rfl
  have since := foldl_allEvent_sound added fun ptype member => absurd member List.not_mem_nil
  rw [foldl_allEvent_eq, survivors_map nodes, List.forall_mem_append, and_iff_right since,
    List.forall_mem_map, List.eq_nil_iff_forall_not_mem]
  exact forall_congr' fun ptype => imp_congr_right fun _ => iff_of_false (withFunc_nop_unsound own ptype) id

/-- Of the hooked entries of `ptype_base` those may stay that the load has left alone. -/
theorem hooked_base_sound_iff {own : Own} (added : ∀ event ∈ events, event.Sound own)
    {buckets : List (List PacketType)}
    (sound : ∀ bucket ∈ buckets, ∀ ptype ∈ bucket, SoundHandler own ptype) :
    (∀ bucket ∈ events.foldl baseEvent (buckets.map (List.map (hookBase symbols own))), ∀ ptype ∈ bucket,
        SoundHandler own ptype) ↔
      ∀ i bucket, buckets[i]? = some bucket → ∀ ptype ∈ survivors (eventsAt i events) bucket,
        ptype.func ∉ [symbols.arprcv, symbols.iprcv, symbols.ipv6rcv] := by
  -- one bucket
  have one (i : Nat) {bucket : List PacketType} (there : buckets[i]? = some bucket) :
      (∀ ptype ∈ (eventsAt i events).foldl allEvent (bucket.map (hookBase symbols own)),
        SoundHandler own ptype) ↔
      ∀ ptype ∈ survivors (eventsAt i events) bucket,
        ptype.func ∉ [symbols.arprcv, symbols.iprcv, symbols.ipv6rcv] := by
    have since := foldl_allEvent_sound (eventsAt_sound added i) fun ptype member =>
      absurd member List.not_mem_nil
    rw [foldl_allEvent_eq, survivors_map (hookBase_node symbols own), List.forall_mem_append,
      and_iff_right since, List.forall_mem_map]
    refine forall_congr' fun ptype => imp_congr_right fun member => hookBase_sound_iff ?_
    exact sound bucket (List.mem_of_getElem? there) ptype (List.mem_filter.mp member).1
  have place (i : Nat) : (events.foldl baseEvent (buckets.map (List.map (hookBase symbols own))))[i]? =
      buckets[i]?.map fun bucket =>
        (eventsAt i events).foldl allEvent (bucket.map (hookBase symbols own)) := by
    rw [foldl_baseEvent_getElem?, List.getElem?_map, Option.map_map]
    rfl
  constructor
  · intro all i bucket there
    refine (one i there).mp (all _ (List.mem_of_getElem? (i := i) ?_))
    rw [place, there]
    rfl
  · intro kept hooked member
    obtain ⟨i, among⟩ := List.getElem?_of_mem member
    rw [place, Option.map_eq_some_iff] at among
    obtain ⟨bucket, there, rfl⟩ := among
    exact (one i there).mpr (kept i bucket there)

variable (table : outcome.table = some symbols) (sound : AllSound m.own w.ptypeBase w.ptypeAll)
  (added : ∀ event ∈ events, event.Sound m.own)
  (loads : genpipeInit m params outcome (fresh w) = .ok (0, loaded))
  (unloads : genpipeCleanup m now (events.foldl packEvent loaded) = .ok left)

include table sound added loads unloads

/-- The parameter is not set any more: what was hooked stays hooked. -/
theorem unload_off_iff (off : now.hookDevAddPack = 0#32) :
    AllSound m.own left.ptypeBase left.ptypeAll ↔
      params.hookDevAddPack = 0#32 ∨ survivors events w.ptypeAll = [] ∧
        ∀ i bucket, w.ptypeBase[i]? = some bucket → ∀ ptype ∈ survivors (eventsAt i events) bucket,
          ptype.func ∉ [symbols.arprcv, symbols.iprcv, symbols.ipv6rcv] := by
  obtain ⟨base, all⟩ := cleanup_unhooked off unloads
  rw [foldl_packEvent] at base all
  dsimp only at base all
  by_cases hooked : params.hookDevAddPack = 0#32
  · obtain ⟨ptypeBase, ptypeAll, -⟩ := loaded_unhooked hooked loads
    refine iff_of_true ?_ (.inl hooked)
    rw [base, all, ptypeBase, ptypeAll]
    exact ⟨foldl_baseEvent_sound added sound.base, foldl_allEvent_sound added sound.all⟩
  · obtain ⟨ptypeBase, ptypeAll, -⟩ := loaded_handlers hooked loads
    have sameBase : loaded.ptypeBase = w.ptypeBase.map (List.map (hookBase symbols m.own)) := by
      rw [ptypeBase, loaded_symbols table loads]
      rfl
    have sameAll : loaded.ptypeAll = w.ptypeAll.map (withFunc m.own.genpipeNop) := ptypeAll
    rw [or_iff_right hooked, base, all, sameBase, sameAll, ← hooked_all_sound_iff added,
      ← hooked_base_sound_iff added sound.base]
    exact ⟨fun both => ⟨both.all, both.base⟩, fun both => ⟨both.2, both.1⟩⟩

variable (apart : m.own.Apart symbols) (on : now.hookDevAddPack ≠ 0#32)

include apart on

/-- With the parameter set at the unload, the base handlers are given back, hooked or not. -/
theorem unload_on_base : left.ptypeBase = events.foldl baseEvent w.ptypeBase := by
  have foreign : ∀ bucket ∈ w.ptypeBase, ∀ ptype ∈ bucket, ForeignHandler m.own ptype :=
    fun bucket there ptype member => (sound.base bucket there ptype member).2
  have registered : ∀ ptype, Registered events ptype → ForeignHandler m.own ptype :=
    fun ptype ⟨place, member⟩ => (added _ member).2
  have base := ((genpipeCleanup_ok unloads).2 on).1
  rw [foldl_packEvent] at base
  dsimp only at base
  rw [loaded_symbols table loads] at base
  by_cases hooked : params.hookDevAddPack = 0#32
  · rw [(loaded_unhooked hooked loads).1] at base
    -- there is nothing of the module's to undo
    have same : ∀ bucket ∈ events.foldl baseEvent w.ptypeBase,
        bucket.map (unhookBase symbols m.own) = bucket := by
      intro bucket there
      refine (List.map_congr_left fun ptype member => ?_).trans (List.map_id _)
      exact unhookBase_foreign (foldl_baseEvent_sound added sound.base bucket there ptype member).2
    exact base.trans ((List.map_congr_left same).trans (List.map_id _))
  · have start := (loaded_handlers hooked loads).1
    rw [loaded_symbols table loads] at start
    rw [start] at base
    exact base.trans (unhooked_ptypeBase apart foreign registered)

theorem unload_on_iff :
    AllSound m.own left.ptypeBase left.ptypeAll ↔
      events.foldl allEvent w.ptypeAll = [] ∨ params.hookDevAddPack ≠ 0#32 ∧ w.ptypeAll ≠ [] := by
  have base := unload_on_base table sound added loads unloads apart on
  have all := ((genpipeCleanup_ok unloads).2 on).2
  rw [foldl_packEvent] at all
  dsimp only at all
  have whole : AllSound m.own left.ptypeBase left.ptypeAll ↔
      ∀ ptype ∈ left.ptypeAll, SoundHandler m.own ptype := by
    refine ⟨AllSound.all, fun handlers => ⟨?_, handlers⟩⟩
    rw [base]
    exact foldl_baseEvent_sound added sound.base
  rw [whole, all, unhookAll_sound_iff]
  by_cases hooked : params.hookDevAddPack = 0#32
  · obtain ⟨-, ptypeAll, backup⟩ := loaded_unhooked hooked loads
    have none : loaded.backupFunc = 0#64 := backup
    have same : loaded.ptypeAll = w.ptypeAll := ptypeAll
    simp [none, same, hooked]
  · obtain ⟨-, ptypeAll, backup⟩ := loaded_handlers hooked loads
    have same : loaded.ptypeAll = w.ptypeAll.map (withFunc m.own.genpipeNop) := ptypeAll
    rw [backup, lastHandler_sound_iff sound.all, same, foldl_allEvent_hooked_nil_iff]
    simp [hooked]

end

/-- Loaded, used beside any registrations, removals and writes to its parameters, and unloaded, the
    module leaves no handler behind that is NULL or its own exactly if: with `hook_dev_add_pack` set at
    the unload, nobody listens on `ptype_all`, or somebody did at the load and it was set then; with it
    not set, it was not set at the load, or every entry hooked then has been removed. -/
theorem unload_sound_iff {m : Loaded} {params : Params} {outcome : Outcome} {symbols : Symbols}
    {w loaded : World} {events : List Life} {final : Machine} (apart : m.own.Apart symbols)
    (table : outcome.table = some symbols) (sound : AllSound m.own w.ptypeBase w.ptypeAll)
    (added : ∀ event ∈ packs events, event.Sound m.own) (middle : ∀ event ∈ events, event.WhileIn)
    (loads : genpipeInit m params outcome (fresh w) = .ok (0, loaded))
    (runs : run Machine.live ⟨w, none⟩ (.insmod m params outcome :: events ++ [.rmmod]) = .ok final) :
    AllSound m.own final.world.ptypeBase final.world.ptypeAll ↔
      if (paramsAfter params events).hookDevAddPack ≠ 0#32 then
        (packs events).foldl allEvent w.ptypeAll = [] ∨ params.hookDevAddPack ≠ 0#32 ∧ w.ptypeAll ≠ []
      else
        params.hookDevAddPack = 0#32 ∨ survivors (packs events) w.ptypeAll = [] ∧
          ∀ i bucket, w.ptypeBase[i]? = some bucket →
            ∀ ptype ∈ survivors (eventsAt i (packs events)) bucket,
              ptype.func ∉ [symbols.arprcv, symbols.iprcv, symbols.ipv6rcv] := by
  have unloads := run_load_unload middle loads runs
  by_cases on : (paramsAfter params events).hookDevAddPack ≠ 0#32
  · rw [if_pos on]
    exact unload_on_iff table sound added loads unloads apart on
  · rw [if_neg on]
    exact unload_off_iff table sound added loads unloads (not_not.mp on)

/-- The parameter is set while the module is in: the packet socket there is left with NULL. -/
theorem unload_sound_sample :
    let w := sampleWorld [] [{ node := 1#64, func := 0xffffffff81700100#64 }]
    let params : Params := { hookDevAddPack := 0#32, hookDriver := 0#32 }
    let events : List Life := [.setParams { params with hookDevAddPack := 1#32 }]
    ∃ final, run Machine.live ⟨w, none⟩ (.insmod sampleLoaded params sampleOutcome :: events ++ [.rmmod]) =
        .ok final ∧ ¬ AllSound sampleLoaded.own final.world.ptypeBase final.world.ptypeAll := by
  intro w params events
  obtain ⟨final, runs⟩ : ∃ final, run Machine.live ⟨w, none⟩
      (.insmod sampleLoaded params sampleOutcome :: events ++ [.rmmod]) = .ok final := ⟨_, rfl⟩
  obtain ⟨loaded, loads⟩ : ∃ loaded, genpipeInit sampleLoaded params sampleOutcome (fresh w) =
      .ok (0, loaded) := ⟨_, rfl⟩
  have apart : sampleLoaded.own.Apart sampleSymbols := ⟨by decide, by decide, by decide, by decide⟩
  have sound : AllSound sampleLoaded.own w.ptypeBase w.ptypeAll := ⟨by decide, by decide⟩
  have exactly := unload_sound_iff apart rfl sound (by simp [packs, events])
    (by simp [events, Life.WhileIn]) loads runs
  refine ⟨final, runs, fun handlers => ?_⟩
  have claimed := exactly.mp handlers
  simp [paramsAfter, packs, events, w, params, sampleWorld] at claimed

end TestPrograms.Genpipe
