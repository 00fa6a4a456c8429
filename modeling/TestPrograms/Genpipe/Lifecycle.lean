import TestPrograms.Foundations.Runs
import TestPrograms.Genpipe.BaseRestored
import TestPrograms.Genpipe.InitUndone

/-! # Loads and unloads

The module is loaded and unloaded any number of times.  Its parameters are files that root may
write while it is in, and both functions read `hook_dev_add_pack` when they run.
-/

namespace TestPrograms.Genpipe

open TestPrograms.Foundations

def noPbuf : Pbuf where
  rxStartPtr := 0
  rxEndPtr := 0
  rxWritePtr := 0
  rxReadPtr := 0
  txStartPtr := 0
  txEndPtr := 0
  txWritePtr := 0
  txReadPtr := 0

def unsetSymbols : Symbols where
  kfreeskb := 0#64
  devkfreeskbany := 0#64
  netdevallocskb := 0#64
  netifrx := 0#64
  napigroreceive := 0#64
  netifreceiveskb := 0#64
  ixgbecleanrxirq := 0#64
  arprcv := 0#64
  iprcv := 0#64
  ipv6rcv := 0#64
  ptypeall := 0#64
  ptypebase := 0#64
  driverTop := 0
  driverBottom := 0

/-- The globals of a module that has just been read in. -/
def fresh (w : World) : World :=
  { w with device := 0, packDev := 0, pbuf0 := noPbuf, symbols := unsetSymbols, backupFunc := 0#64 }

structure Machine where
  world : World
  -- the module that is in, with its parameters as they are now
  loaded : Option (Loaded × Params)

/-- What happens on the machine.  `insmod` is refused while the module is in, and the kernel does
    not unload what is not. -/
inductive Life where
  | insmod (m : Loaded) (params : Params) (outcome : Outcome)
  | setParams (params : Params)
  | pack (event : PackEvent)
  | rmmod

def Machine.live (s : Machine) : Life → Except Oops Machine
  | .insmod m params outcome =>
    match s.loaded with
    | some _ => .ok s
    | none =>
      match genpipeInit m params outcome (fresh s.world) with
      | .error oops => .error oops
      | .ok (ret, world) => .ok { world, loaded := if ret = 0 then some (m, params) else none }
  | .setParams params => .ok { s with loaded := s.loaded.map fun loaded => (loaded.1, params) }
  | .pack event => .ok { s with world := packEvent s.world event }
  | .rmmod =>
    match s.loaded with
    | none => .ok s
    | some (m, params) =>
      match genpipeCleanup m params s.world with
      | .error oops => .error oops
      | .ok world => .ok { world, loaded := none }

/-- Loads that have found the device. -/
def countLoad (s : Machine) (event : Life) (found : Nat) : Nat :=
  match event with
  | .insmod _ _ outcome => if s.loaded.isNone ∧ outcome.device ≠ 0 then found + 1 else found
  | .setParams _ | .pack _ | .rmmod => found

def foundBy : Machine → List Life → Nat := fun s => carry Machine.live countLoad s 0

/-! ## What each function holds on to -/

/-- The two buffers are the module's. -/
structure Holds (start w : World) : Prop where
  rx : w.pbuf0.rxStartPtr ≠ 0
  tx : w.pbuf0.txStartPtr ≠ 0
  allocated : w.allocated = w.pbuf0.txStartPtr :: w.pbuf0.rxStartPtr :: start.allocated

section

variable {m : Loaded} {params : Params} {outcome : Outcome} {start w left : World} {ret : Int}

theorem Holds.freed (holds : Holds start w) : (freeBuffers w).allocated = start.allocated :=
  freeBuffers_allocated_both holds.allocated ⟨holds.rx, holds.tx⟩

theorem freeBuffers_registered (w : World) : (freeBuffers w).registered = w.registered := by
  unfold freeBuffers freeTx freeRx
  split <;> split <;> rfl

theorem hookHandlers_keeps {own : Own} (hooks : hookHandlers own w = .ok left) :
    left.deviceRefs = w.deviceRefs ∧ left.allocated = w.allocated ∧ left.pbuf0 = w.pbuf0 ∧
      left.registered = w.registered := by
  unfold hookHandlers at hooks
  split at hooks
  · cases hooks
  · cases hooks
    exact ⟨rfl, rfl, rfl, rfl⟩

theorem finishInit_keeps (succeeds : finishInit m params outcome w = .ok (0, left)) :
    left.deviceRefs = w.deviceRefs ∧ left.allocated = w.allocated ∧ left.pbuf0 = w.pbuf0 ∧
      left.registered = true := by
  rw [finishInit, if_neg (finishInit_registers succeeds)] at succeeds
  dsimp only at succeeds
  split at succeeds
  · cases succeeds
  · rename_i hooked
    cases succeeds
    split at hooked
    · exact hookHandlers_keeps hooked
    · cases hooked
      exact ⟨rfl, rfl, rfl, rfl⟩

/-- A load that succeeds has found the device and keeps the two buffers. -/
theorem genpipeInit_holds (succeeds : genpipeInit m params outcome w = .ok (0, left)) :
    outcome.device ≠ 0 ∧ left.deviceRefs = w.deviceRefs + 1 ∧ left.registered = true ∧ Holds w left := by
  obtain ⟨symbols, image, -, -, finishes⟩ := genpipeInit_ok succeeds
  obtain ⟨refs, allocated, pbuf0, registered⟩ := finishInit_keeps finishes
  -- the exits before the registration return -1
  have device : outcome.device ≠ 0 := by
    intro missing
    simp [genpipeInit, missing] at succeeds
  have rx : outcome.rxBuffer ≠ 0 := by
    intro missing
    simp [genpipeInit, missing, device] at succeeds
  have tx : outcome.txBuffer ≠ 0 := by
    intro missing
    simp [genpipeInit, missing, device, rx] at succeeds
  refine ⟨device, refs, registered, ?_, ?_, ?_⟩
  · rw [pbuf0]
    exact rx
  · rw [pbuf0]
    exact tx
  · rw [allocated, pbuf0]
    rfl

theorem hookDriver_registered (hooks : hookDriver m params w = some left) :
    left.registered = w.registered := by
  obtain ⟨image, rfl, -⟩ := hookDriver_some hooks
  rfl

theorem genpipeInit_unregistered (fails : genpipeInit m params outcome w = .ok (ret, left))
    (nonzero : ret ≠ 0) : left.registered = w.registered := by
  unfold genpipeInit at fails
  dsimp only at fails
  split at fails
  · cases fails
    exact freeBuffers_registered _
  split at fails
  · cases fails
    exact freeBuffers_registered _
  split at fails
  · cases fails
    exact freeBuffers_registered _
  split at fails
  · cases fails
    exact freeBuffers_registered _
  split at fails
  · cases fails
    exact freeBuffers_registered _
  · rename_i hooked
    obtain ⟨-, rfl⟩ := finishInit_fails fails nonzero
    have registered := hookDriver_registered hooked
    exact (freeBuffers_registered _).trans registered

theorem genpipeCleanup_frees (succeeds : genpipeCleanup m params w = .ok left) (holds : Holds start w) :
    left.deviceRefs = w.deviceRefs ∧ left.registered = false ∧ left.allocated = start.allocated := by
  unfold genpipeCleanup at succeeds
  dsimp only at succeeds
  split at succeeds
  · cases succeeds
  · rename_i unhooked held
    cases succeeds
    have same : unhooked.deviceRefs = w.deviceRefs ∧ unhooked.registered = false ∧
        unhooked.allocated = w.allocated ∧ unhooked.pbuf0 = w.pbuf0 := by
      split at held
      · unfold unhookHandlers at held
        split at held
        · cases held
        · cases held
          exact ⟨rfl, rfl, rfl, rfl⟩
      · cases held
        exact ⟨rfl, rfl, rfl, rfl⟩
    obtain ⟨refs, registered, allocated, pbuf0⟩ := same
    have holds' : Holds start unhooked := by
      constructor
      · rw [pbuf0]
        exact holds.rx
      · rw [pbuf0]
        exact holds.tx
      · rw [allocated, pbuf0]
        exact holds.allocated
    exact ⟨(freeBuffers_frame _).2.2.2.trans refs, (freeBuffers_registered _).trans registered,
      holds'.freed⟩

end

/-! ## Runs -/

/-- Between the calls the buffers are the module's, if it is in, and nobody's if not; of the
    references to the device none comes back. -/
structure Balanced (start : World) (found : Nat) (s : Machine) : Prop where
  deviceRefs : s.world.deviceRefs = start.deviceRefs + found
  registered : s.world.registered = s.loaded.isSome
  out : s.loaded = none → s.world.allocated = start.allocated
  inside : s.loaded ≠ none → Holds start s.world

theorem Balanced.live {start : World} {found : Nat} {s next : Machine} {event : Life}
    (balanced : Balanced start found s) (lives : s.live event = .ok next) :
    Balanced start (countLoad s event found) next := by
  cases event with
  | setParams params =>
    cases lives
    refine ⟨balanced.deviceRefs, ?_, fun none => ?_, fun some => ?_⟩
    · rw [balanced.registered]
      exact (Option.isSome_map).symm
    · exact balanced.out (Option.map_eq_none_iff.mp none)
    · exact balanced.inside fun none => some (Option.map_eq_none_iff.mpr none)
  | pack event =>
    cases lives
    refine ⟨balanced.deviceRefs, balanced.registered, balanced.out, fun some => ?_⟩
    obtain ⟨rx, tx, allocated⟩ := balanced.inside some
    exact ⟨rx, tx, allocated⟩
  | insmod m params outcome =>
    simp only [Machine.live] at lives
    split at lives
    · rename_i loaded
      cases lives
      have same : countLoad s (.insmod m params outcome) found = found := by simp [countLoad, loaded]
      rwa [same]
    · rename_i idle
      split at lives
      · cases lives
      · rename_i ret world loads
        cases lives
        have out := balanced.out idle
        have counted : countLoad s (.insmod m params outcome) found =
            found + if outcome.device ≠ 0 then 1 else 0 := by
          simp only [countLoad, idle, Option.isNone_none, true_and]
          split <;> rfl
        rw [counted]
        by_cases succeeds : ret = 0
        · subst succeeds
          obtain ⟨device, refs, registered, rx, tx, allocated⟩ := genpipeInit_holds loads
          rw [if_pos device, if_pos rfl]
          refine ⟨?_, registered, fun none => (by cases none), fun _ => ⟨rx, tx, ?_⟩⟩
          · rw [refs, ← Nat.add_assoc, ← balanced.deviceRefs]
            rfl
          · rw [allocated, ← out]
            rfl
        · rw [if_neg succeeds]
          have registered := genpipeInit_unregistered loads succeeds
          have before := balanced.registered
          rw [idle] at before
          cases genpipeInit_fails ⟨rfl, rfl⟩ loads succeeds with
          | inl missing =>
            obtain ⟨device, leaves⟩ := missing
            rw [if_neg (not_not_intro device)]
            exact ⟨leaves.deviceRefs.trans balanced.deviceRefs, registered.trans before,
              fun _ => leaves.allocated.trans out, fun some => absurd rfl some⟩
          | inr later =>
            obtain ⟨device, image, leaves, -⟩ := later
            rw [if_pos device]
            refine ⟨leaves.deviceRefs.trans ?_, registered.trans before,
              fun _ => leaves.allocated.trans out, fun some => absurd rfl some⟩
            rw [← Nat.add_assoc, ← balanced.deviceRefs]
            rfl
  | rmmod =>
    simp only [Machine.live] at lives
    split at lives
    · cases lives
      exact balanced
    · rename_i m params loaded
      split at lives
      · cases lives
      · rename_i world unloads
        cases lives
        have holds := balanced.inside (by rw [loaded]; exact Option.some_ne_none _)
        obtain ⟨refs, registered, allocated⟩ := genpipeCleanup_frees unloads holds
        exact ⟨refs.trans balanced.deviceRefs, registered, fun _ => allocated, fun some => absurd rfl some⟩

/-- However often the module is loaded and unloaded, with whatever comes of the loads, the writes to
    its parameters and the other users of the handler lists: what it has allocated it has exactly while
    it is in, and every load that found the device keeps a reference for good. -/
theorem lifecycle_balanced {start : World} {final : Machine} {events : List Life}
    (unregistered : start.registered = false) (runs : run Machine.live ⟨start, none⟩ events = .ok final) :
    final.world.deviceRefs = start.deviceRefs + foundBy ⟨start, none⟩ events ∧
      final.world.registered = final.loaded.isSome ∧
      (final.loaded = none → final.world.allocated = start.allocated) ∧
      (final.loaded ≠ none → Holds start final.world) := by
  have begins : Balanced start 0 ⟨start, none⟩ :=
    ⟨rfl, unregistered, fun _ => rfl, fun some => absurd rfl some⟩
  have always : Along Machine.live (fun _ _ => True) ⟨start, none⟩ events :=
    along_of_forall fun _ _ _ => trivial
  have kept : ∀ found s event next, Balanced start found s → True → Machine.live s event = .ok next →
      Balanced start (countLoad s event found) next :=
    fun _ _ _ _ balanced _ lives => balanced.live lives
  obtain ⟨refs, registered, out, inside⟩ := carry_invariant (Balanced start) kept begins always runs
  exact ⟨refs, registered, out, inside⟩

/-- A load, an unload and a load under a name that is taken: two references are gone. -/
theorem lifecycle_balanced_sample :
    let params : Params := { hookDevAddPack := 0#32, hookDriver := 0#32 }
    let events : List Life := [.insmod sampleLoaded params sampleOutcome, .rmmod,
      .insmod sampleLoaded params busyOutcome]
    ∃ final, run Machine.live ⟨sampleWorld [] [], none⟩ events = .ok final ∧
      final.world.deviceRefs = 3 ∧ final.world.allocated = [] ∧ final.world.registered = false := by
  intro params events
  obtain ⟨final, runs, out⟩ : ∃ final, run Machine.live ⟨sampleWorld [] [], none⟩ events = .ok final ∧
      final.loaded = none := ⟨_, rfl, rfl⟩
  obtain ⟨refs, registered, allocated, -⟩ := lifecycle_balanced rfl runs
  refine ⟨final, runs, ?_, allocated out, ?_⟩
  · rw [refs]
    rfl
  · rw [registered, out]
    rfl

/-! ## Polling -/

-- `POLLIN | POLLRDNORM` where something has been received.
def genpipePoll (pbuf0 : Pbuf) : BitVec 32 :=
  if pbuf0.rxReadPtr ≠ pbuf0.rxWritePtr then 0x41#32 else 0#32

/-- Nothing is ever put in the receive buffer. -/
def Machine.Unread (s : Machine) : Prop :=
  s.loaded ≠ none → s.world.pbuf0.rxReadPtr = s.world.pbuf0.rxWritePtr

theorem Machine.Unread.live {s next : Machine} {event : Life} (unread : s.Unread)
    (lives : s.live event = .ok next) : next.Unread := by
  cases event with
  | setParams params =>
    cases lives
    exact fun some => unread fun none => some (Option.map_eq_none_iff.mpr none)
  | pack event =>
    cases lives
    exact unread
  | insmod m params outcome =>
    simp only [Machine.live] at lives
    split at lives
    · cases lives
      exact unread
    · split at lives
      · cases lives
      · rename_i ret world loads
        cases lives
        intro loaded
        by_cases succeeds : ret = 0
        · subst succeeds
          obtain ⟨symbols, image, -, -, finishes⟩ := genpipeInit_ok loads
          dsimp only
          rw [(finishInit_keeps finishes).2.2.1]
          rfl
        · exact absurd (if_neg succeeds) loaded
  | rmmod =>
    simp only [Machine.live] at lives
    split at lives
    · cases lives
      exact unread
    · split at lives
      · cases lives
      · cases lives
        exact fun loaded => absurd rfl loaded

/-- `read` always has a record, but `poll` never says so. -/
theorem poll_never_readable {start : World} {final : Machine} {events : List Life}
    (runs : run Machine.live ⟨start, none⟩ events = .ok final) (loaded : final.loaded ≠ none) :
    genpipePoll final.world.pbuf0 = 0#32 := by
  have always : Along Machine.live (fun _ _ => True) ⟨start, none⟩ events :=
    along_of_forall fun _ _ _ => trivial
  have unread : final.Unread :=
    run_invariant Machine.Unread (fun _ _ _ unread _ lives => unread.live lives)
      (fun some => absurd rfl some) always runs
  exact if_neg (not_not_intro (unread loaded))

end TestPrograms.Genpipe
