import TestPrograms.Iplookup.GpuAgrees
import TestPrograms.Iplookup.RoutesLoaded

/-! # `main` of `cuda_iplookup`

The table is filled from `ipv4.txt`, and the same addresses are looked up by the host and by the
device.  The rounds of the host's loop go to the threads of OpenMP, those of the kernel to the grid.
-/

namespace TestPrograms.Iplookup

open TestPrograms.Foundations

/-- `MAX_TEST_ROUTE` for 10G Ethernet; the other setting is less. -/
def maxTestRoute : Nat := 14880950

-- `dim3 blocks(128)` and `dim3 threads(1)`
def blocks : Grid := ⟨128, 1⟩

/-- `iplookup_host` under `omp parallel for`: the rounds in the order they are taken. -/
def lookupRounds (table : Table) (routing : Nat → Word) :
    List Nat → (Nat → Word) → Except Stuck (Nat → Word)
  | [], results => .ok results
  | i :: rounds, results =>
    match readCell table (routing i >>> 8) with
    | .error stuck => .error stuck
    | .ok value => lookupRounds table routing rounds (Function.update results i value)

/-- `(rand() & 0xffff) << 16`; `load_fib` has taken a number for each entry. -/
def routingTable (rand : Nat → Word) (fibCount i : Nat) : Word :=
  (rand (fibCount + i) &&& 0xffff#32) <<< 16

inductive Halt where
  -- `exit (-1)` of `load_fib`
  | cannotOpen
  | host (stuck : Stuck)
  | device (fault : Fault)
  deriving DecidableEq, Repr

/-- Which file there is, what memory holds before it is stored to, and who runs when. -/
structure Setting where
  file : Option (List Char)
  fuel : Nat
  rand : Nat → Word
  vars : Vars
  results : Nat → Word
  rounds : List Nat
  schedule : List Thread

structure Ran where
  fib : List Fib
  routing : Nat → Word
  host : Nat → Word
  device : Device

/-- `load_fib` with the size of the array it stores to. -/
def loadFile (setting : Setting) : Except Halt Loader :=
  match setting.file with
  | none => .error .cannotOpen
  | some text =>
    match loadFib setting.rand setting.fuel setting.vars text with
    | .error stuck => .error (.host stuck)
    | .ok loader =>
      if ∀ store ∈ loader.stores, store.1 < maxRoutingTable then .ok loader
      else .error (.host .outOfBounds)

def main (routingCount : Nat) (setting : Setting) : Except Halt Ran := do
  let loader ← loadFile setting
  let table ← (mappingFib tableSize loader.fib fun _ => 0#32).mapError .host
  let routing := routingTable setting.rand loader.fibCount
  let host ← (lookupRounds table routing setting.rounds setting.results).mapError .host
  let device ← (iplookupGpu blocks table routing routingCount (fun _ => 0#32)
    setting.schedule).mapError .device
  return { fib := loader.fib, routing, host, device }

/-! ## The host's rounds -/

/-- In whatever order the rounds are taken, each stores its own result. -/
theorem lookupRounds_spec (table : Table) (routing : Nat → Word) (rounds : List Nat)
    (results : Nat → Word) :
    lookupRounds table routing rounds results =
      .ok fun k => if k ∈ rounds then table (routing k >>> 8).toNat else results k := by
  induction rounds generalizing results with
  | nil => simp [lookupRounds]
  | cons i rounds ih =>
    simp only [lookupRounds, readCell, cell_lt, if_true, ih]
    congr 1
    funext k
    by_cases here : k = i
    · subst here
      simp
    · simp [here]

theorem lookupRounds_perm {rounds : List Nat} {routingCount : Nat}
    (order : rounds.Perm (List.range routingCount)) (table : Table) (routing results : Nat → Word) :
    lookupRounds table routing rounds results = iplookupHost table routing results routingCount := by
  rw [lookupRounds_spec, iplookupHost, lookupLoop_spec]
  congr 1
  funext k
  simp [order.mem_iff]

theorem lookupRounds_ok {rounds : List Nat} {routingCount : Nat}
    (order : rounds.Perm (List.range routingCount)) (table : Table) (routing results : Nat → Word) :
    ∃ found, lookupRounds table routing rounds results = .ok found ∧
      ∀ i < routingCount, found i = table (routing i >>> 8).toNat := by
  refine ⟨_, (lookupRounds_perm order table routing results).trans (lookupLoop_spec _ _ _ _ _), ?_⟩
  intro i below
  exact if_pos (by omega)

/-! ## Routes of the file -/

/-- The lines that pass the test of `load_fib`. -/
def routesOf (lines : List Vars) : List Vars := lines.filter fun line => ¬ line.Skipped

/-- The route takes part and its prefix covers `x`. -/
def Vars.Covers (line : Vars) (x : Word) : Prop :=
  2 ≤ line.subnet.toNat ∧
    x >>> (32 - line.subnet.toNat) = line.route.1 >>> (32 - line.subnet.toNat)

instance Vars.decidableCovers (line : Vars) (x : Word) : Decidable (line.Covers x) :=
  inferInstanceAs (Decidable (_ ∧ _))

/-- Route `k` covers `x`, with a prefix longer than any other that does, or as long and later. -/
structure LongestRoute (routes : List Vars) (x : Word) (k : Nat) (line : Vars) : Prop where
  present : routes[k]? = some line
  covers : line.Covers x
  greatest : ∀ other j, routes[j]? = some other → other.Covers x →
    other.subnet.toNat < line.subnet.toNat ∨ other.subnet = line.subnet ∧ j ≤ k

/-- The gateway drawn for the longest route to `x`, or 0 where there is no route. -/
def Gateway (rand : Nat → Word) (routes : List Vars) (x value : Word) : Prop :=
  (∃ k line, LongestRoute routes x k line ∧ value = rand k &&& 0xff#32) ∨
    (∀ line ∈ routes, ¬ line.Covers x) ∧ value = 0#32

section

variable {rand : Nat → Word}

theorem Vars.Valid.subnet_le {line : Vars} (valid : line.Valid) : line.subnet.toNat ≤ 24 := by
  have value := toNat_of_toInt valid.subnet.1
  have high := valid.subnet.2
  omega

theorem Vars.Valid.entry_subnet {line : Vars} (valid : line.Valid) (r : Word) :
    (line.entry r).subnet.toNat = line.subnet.toNat := by
  have short := valid.subnet_le
  rw [Vars.entry, BitVec.toNat_setWidth, Nat.mod_eq_of_lt (by omega)]

theorem Vars.Valid.matches_iff {line : Vars} (valid : line.Valid) (r x : Word) :
    Matches (line.entry r) x ↔ line.Covers x := by
  have address : (line.entry r).ip = line.route.1 := congrArg Prod.fst (valid.entry_route r)
  rw [Matches, Vars.Covers, valid.entry_subnet r, address]
  exact and_congr_right fun _ => and_iff_right valid.subnet_le

theorem entry_gw (line : Vars) (r : Word) : (line.entry r).gw.zeroExtend 32 = r &&& 0xff#32 := by
  apply BitVec.eq_of_toNat_eq
  have low : (r &&& 0xff#32).toNat ≤ 0xff := Nat.and_le_right
  rw [Vars.entry, BitVec.toNat_setWidth, BitVec.toNat_setWidth, Nat.mod_eq_of_lt (by omega),
    Nat.mod_eq_of_lt (by omega)]

theorem storesOf_getElem? (rand : Nat → Word) (lines : List Vars) (k : Nat) :
    ((storesOf rand 0 lines).map Prod.snd)[k]? =
      (routesOf lines)[k]?.map fun line => line.entry (rand k) := by
  rw [storesOf, routesOf, List.getElem?_map, List.getElem?_map, List.getElem?_zipIdx, Option.map_map,
    Option.map_map, Nat.zero_add]
  rfl

theorem mem_storesOf {entry : Fib} {lines : List Vars} {k : Nat}
    (there : ((storesOf rand 0 lines).map Prod.snd)[k]? = some entry) :
    ∃ line, (routesOf lines)[k]? = some line ∧ entry = line.entry (rand k) := by
  rw [storesOf_getElem?, Option.map_eq_some_iff] at there
  obtain ⟨line, present, same⟩ := there
  exact ⟨line, present, same.symm⟩

theorem storesOf_of_route {line : Vars} {lines : List Vars} {k : Nat}
    (present : (routesOf lines)[k]? = some line) :
    ((storesOf rand 0 lines).map Prod.snd)[k]? = some (line.entry (rand k)) := by
  rw [storesOf_getElem?, present]
  rfl

theorem valid_of_route {lines : List Vars} (routes : ∀ line ∈ lines, ¬ line.Skipped → line.Valid)
    {line : Vars} (member : line ∈ routesOf lines) : line.Valid := by
  obtain ⟨inFile, passes⟩ := List.mem_filter.mp member
  exact routes line inFile (of_decide_eq_true passes)

/-- The longest match among the entries is the longest route of the file. -/
theorem gateway_of_entries {lines : List Vars} (routes : ∀ line ∈ lines, ¬ line.Skipped → line.Valid)
    {x value : Word}
    (found : (∃ k entry, LongestMatch ((storesOf rand 0 lines).map Prod.snd) x k entry ∧
        value = entry.gw.zeroExtend 32) ∨
      (∀ entry ∈ (storesOf rand 0 lines).map Prod.snd, ¬ Matches entry x) ∧ value = 0#32) :
    Gateway rand (routesOf lines) x value := by
  have valid {line : Vars} {k : Nat} (present : (routesOf lines)[k]? = some line) : line.Valid :=
    valid_of_route routes (List.mem_of_getElem? present)
  rcases found with ⟨k, entry, longest, stored⟩ | ⟨none, stored⟩
  · obtain ⟨line, present, rfl⟩ := mem_storesOf longest.present
    have covers := ((valid present).matches_iff _ x).mp longest.covers
    refine .inl ⟨k, line, ⟨present, covers, fun other j there covered => ?_⟩, ?_⟩
    · have compared := longest.greatest _ j (storesOf_of_route there)
        (((valid there).matches_iff _ x).mpr covered)
      rw [(valid there).entry_subnet, (valid present).entry_subnet] at compared
      refine compared.imp id fun ⟨same, before⟩ => ⟨?_, before⟩
      have lengths := congrArg BitVec.toNat same
      rw [(valid there).entry_subnet, (valid present).entry_subnet] at lengths
      exact BitVec.eq_of_toNat_eq lengths
    · rw [stored, entry_gw]
  · refine .inr ⟨fun line member covered => ?_, stored⟩
    obtain ⟨k, there⟩ := List.getElem?_of_mem member
    exact none _ (List.mem_of_getElem? (storesOf_of_route there))
      (((valid there).matches_iff _ x).mpr covered)

/-! ## How many numbers `load_fib` takes -/

theorem loadRound_count {s s' : Loader} (round : loadRound rand s = some s')
    (counted : s.stores.length = s.fibCount) : s'.stores.length = s'.fibCount := by
  simp only [loadRound] at round
  split at round
  · cases round
  · split at round
    · cases round
      exact counted
    · cases round
      rw [List.length_append, counted, List.length_singleton]

theorem loadLoop_count {fuel : Nat} {s s' : Loader} (ends : loadLoop rand fuel s = .ok s')
    (counted : s.stores.length = s.fibCount) : s'.stores.length = s'.fibCount := by
  induction fuel generalizing s with
  | zero => cases ends
  | succ fuel ih =>
    rw [loadLoop] at ends
    cases round : loadRound rand s with
    | none =>
      rw [round] at ends
      cases ends
      exact counted
    | some next =>
      rw [round] at ends
      exact ih ends (loadRound_count round counted)

theorem storesOf_length (rand : Nat → Word) (lines : List Vars) :
    (storesOf rand 0 lines).length = (routesOf lines).length := by
  rw [storesOf, List.length_map, List.length_zipIdx, routesOf]

/-- A file whose routes fit is loaded, and a number is taken for each of them. -/
theorem loadFile_spec {setting : Setting} {text : List Char} {lines : List Vars}
    (opened : setting.file = some text) (file : FileOf text lines) (enough : lines.length < setting.fuel)
    (fit : (routesOf lines).length ≤ maxRoutingTable) :
    ∃ loader, loadFile setting = .ok loader ∧
      loader.stores = storesOf setting.rand 0 lines ∧ loader.fibCount = (routesOf lines).length := by
  obtain ⟨loader, ends, stores⟩ := loadLoop_file setting.rand file []
    (fun _ member => absurd member List.not_mem_nil)
    (s := { input := text, vars := setting.vars, fibCount := 0, stores := [] }) rfl enough
  have counted := loadLoop_count ends rfl
  rw [List.nil_append] at stores
  refine ⟨loader, ?_, stores, ?_⟩
  · have loaded : loadFib setting.rand setting.fuel setting.vars text = .ok loader := ends
    have inside : ∀ store ∈ loader.stores, store.1 < maxRoutingTable := by
      rw [stores]
      exact (storesOf_inside_iff setting.rand lines).mpr fit
    rw [loadFile, opened]
    simp only [loaded]
    exact if_pos inside
  · rw [← counted, stores, storesOf_length]

end

/-! ## The whole program -/

theorem blocks_fits {routingCount : Nat} (counted : routingCount ≤ maxTestRoute) :
    Fits blocks routingCount := by
  have total : blocks.total = 128 := by decide
  refine ⟨by decide, by decide, ?_⟩
  rw [total]
  unfold maxTestRoute at counted
  omega

/-- Whatever the order in which the threads of either side take their turns, `main` ends with the
    gateway of the longest route of the file for each address, on the host and, once every
    thread of the grid is done, on the device. -/
theorem main_finds_gateways {routingCount : Nat} (counted : routingCount ≤ maxTestRoute)
    (setting : Setting) {text : List Char} {lines : List Vars} (opened : setting.file = some text)
    (file : FileOf text lines) (enough : lines.length < setting.fuel)
    (routes : ∀ line ∈ lines, ¬ line.Skipped → line.Valid)
    (fit : (routesOf lines).length ≤ maxRoutingTable)
    (order : setting.rounds.Perm (List.range routingCount))
    (scheduled : ∀ thread ∈ setting.schedule, blocks.Runs thread) :
    ∃ ran, main routingCount setting = .ok ran ∧
      (∀ i < routingCount,
        ran.routing i = (setting.rand ((routesOf lines).length + i) &&& 0xffff#32) <<< 16 ∧
          Gateway setting.rand (routesOf lines) (ran.routing i) (ran.host i)) ∧
      (∀ thread, blocks.Runs thread → routingCount + 2 ≤ setting.schedule.count thread →
        ran.device.progress thread = .done) ∧
      ((∀ thread, blocks.Runs thread → ran.device.progress thread = .done) →
        ∀ i < routingCount, ran.device.results i = ran.host i) := by
  have fits := blocks_fits counted
  obtain ⟨loader, loaded, stores, fibCount⟩ := loadFile_spec opened file enough fit
  obtain ⟨table, maps, longest⟩ := mappingFib_longest loader.fib
  generalize chosen : routingTable setting.rand loader.fibCount = routing
  obtain ⟨device, returns, turns⟩ : ∃ device, iplookupGpu blocks table routing routingCount
      (fun _ => 0#32) setting.schedule = .ok device ∧
        Scheduled blocks table routing routingCount setting.schedule device :=
    run_scheduled fits _ scheduled
  obtain ⟨host, looksUp, found⟩ := lookupRounds_ok order table routing setting.results
  have ends : main routingCount setting = .ok { fib := loader.fib, routing, host, device } := by
    simp only [main, bind, Except.bind, Except.mapError, loaded, maps, chosen, looksUp, returns]
    rfl
  refine ⟨_, ends, fun i below => ⟨?_, ?_⟩, fun thread inGrid ready => ?_, fun finished i below => ?_⟩
  · show routing i = _
    rw [← chosen, routingTable, fibCount]
  · have best := longest (routing i)
    rw [← found i below, Loader.fib, stores] at best
    exact gateway_of_entries routes best
  · apply left_eq_zero blocks routingCount thread
    have most := last_le routingCount inGrid
    rw [turns.turns, left]
    omega
  · obtain ⟨thread, ⟨inGrid, low, high⟩, -⟩ := fits.share_unique below
    have past : (device.progress thread).Past i := by
      rw [finished thread inGrid]
      trivial
    exact (turns.sound.stored thread i inGrid low high past).trans (found i below).symm

theorem main_finds_gateways_sample :
    let setting : Setting :=
      { file := some (slashEight ['0']), fuel := 2, rand := fun _ => 7, vars := ⟨0, 0, 0, 0, 0⟩,
        results := fun _ => 0, rounds := [1, 0], schedule := [⟨127, 0⟩, ⟨64, 0⟩, ⟨127, 0⟩] }
    ∃ ran, main 2 setting = .ok ran ∧
      (∀ i < 2,
        ran.routing i = (setting.rand ((routesOf [⟨10, 0, 0, 0, 8⟩]).length + i) &&& 0xffff#32) <<< 16 ∧
          Gateway setting.rand (routesOf [⟨10, 0, 0, 0, 8⟩]) (ran.routing i) (ran.host i)) ∧
      (∀ thread, blocks.Runs thread → 2 + 2 ≤ setting.schedule.count thread →
        ran.device.progress thread = .done) ∧
      ((∀ thread, blocks.Runs thread → ran.device.progress thread = .done) →
        ∀ i < 2, ran.device.results i = ran.host i) :=
  main_finds_gateways (by decide) _ rfl (.last (slashEight_lineOf zero_spells)) (by decide)
    (by decide) (by decide) (List.Perm.swap 0 1 [])
    (by simp [Grid.Runs, blocks])

end TestPrograms.Iplookup
