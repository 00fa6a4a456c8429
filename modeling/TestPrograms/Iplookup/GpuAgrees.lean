import TestPrograms.Iplookup.Gpu
import TestPrograms.Iplookup.LongestPrefix

/-! # Host and device agree

The threads share out the indices by truncating division, each index to one thread.  A
thread that has passed an index has stored the value the host stores there, whatever the
others have done in between.
-/

namespace TestPrograms.Iplookup

open TestPrograms.Foundations

/-! ## Shares -/

theorem share_iff {count total : Nat} (counted : 0 < count) (some : 0 < total) (k i : Nat) :
    count * i / total ≤ k ∧ k < count * (i + 1) / total ↔ i = ((k + 1) * total - 1) / count := by
  have positive : 0 < (k + 1) * total := Nat.mul_pos (Nat.succ_pos k) some
  have low : count * i / total ≤ k ↔ i ≤ ((k + 1) * total - 1) / count := by
    rw [← Nat.lt_add_one_iff, Nat.div_lt_iff_lt_mul some, Nat.le_div_iff_mul_le counted, Nat.mul_comm i]
    omega
  have high : k < count * (i + 1) / total ↔ ((k + 1) * total - 1) / count < i + 1 := by
    rw [← Nat.add_one_le_iff, Nat.le_div_iff_mul_le some, Nat.div_lt_iff_lt_mul counted,
      Nat.mul_comm (i + 1)]
    omega
  rw [low, high]
  omega

/-- The grid's threads are counted by `total`, and their number times the addresses is an `int`. -/
structure Fits (grid : Grid) (routingCount : Nat) : Prop where
  total : grid.total = (grid.gridDim.toNat * grid.blockDim.toNat : Nat)
  some : 1 ≤ grid.total
  product : routingCount * grid.total ≤ 2 ^ 31 - 1

def Grid.threads (grid : Grid) : Nat := grid.gridDim.toNat * grid.blockDim.toNat

def Grid.number (grid : Grid) (thread : Thread) : Nat :=
  thread.blockIdx.toNat * grid.blockDim.toNat + thread.threadIdx.toNat

def first (grid : Grid) (routingCount : Nat) (thread : Thread) : Nat :=
  routingCount * grid.number thread / grid.threads

def last (grid : Grid) (routingCount : Nat) (thread : Thread) : Nat :=
  routingCount * (grid.number thread + 1) / grid.threads

section

variable {grid : Grid} {routingCount : Nat} {thread : Thread}

theorem first_le_last : first grid routingCount thread ≤ last grid routingCount thread :=
  Nat.div_le_div_right (Nat.mul_le_mul_left _ (Nat.le_succ _))

theorem number_lt (runs : grid.Runs thread) : grid.number thread < grid.threads := by
  obtain ⟨block, inBlock⟩ := runs
  rw [BitVec.lt_def] at block inBlock
  have blocks := Nat.mul_le_mul_right grid.blockDim.toNat (Nat.succ_le_of_lt block)
  rw [Nat.succ_mul] at blocks
  unfold Grid.number Grid.threads
  omega

theorem last_le (routingCount : Nat) (runs : grid.Runs thread) : last grid routingCount thread ≤ routingCount := by
  have some : 0 < grid.threads := Nat.lt_of_le_of_lt (Nat.zero_le _) (number_lt runs)
  have bound := Nat.mul_le_mul_left routingCount (Nat.succ_le_of_lt (number_lt runs))
  exact (Nat.div_le_div_right bound).trans (Nat.mul_div_cancel _ some).le

theorem Fits.threads_pos (fits : Fits grid routingCount) : 0 < grid.threads := by
  have some := fits.some
  rw [fits.total] at some
  exact Int.ofNat_le.mp some

theorem Fits.threads_lt (fits : Fits grid routingCount) : grid.threads < 2 ^ 31 := by
  have top : grid.total < 2 ^ 31 := BitVec.toInt_lt
  rw [fits.total] at top
  exact Int.ofNat_lt.mp top

theorem Fits.count_le (fits : Fits grid routingCount) : routingCount ≤ 2 ^ 31 - 1 := by
  have more := Int.mul_le_mul_of_nonneg_left fits.some (Int.natCast_nonneg routingCount)
  have product := fits.product
  omega

theorem Fits.idx_eq (fits : Fits grid routingCount) (runs : grid.Runs thread) :
    grid.idx thread = grid.number thread := by
  have below := number_lt runs
  have bound := fits.threads_lt
  have value : (thread.blockIdx * grid.blockDim + thread.threadIdx).toNat = grid.number thread := by
    rw [BitVec.toNat_add, BitVec.toNat_mul, Nat.mod_add_mod, Nat.mod_eq_of_lt]
    · rfl
    · exact Nat.lt_trans (Nat.lt_trans below bound) (by decide)
  rw [Grid.idx, BitVec.toInt_eq_toNat_of_lt (by rw [value]; omega), value]

theorem int_ok {x : Nat} (small : x ≤ 2 ^ 31 - 1) : int x = .ok (x : Int) := by
  rw [int, if_pos (by omega)]

theorem Fits.share_ok (fits : Fits grid routingCount) {n : Nat} (within : n ≤ grid.threads) :
    intMul routingCount n = .ok ((routingCount * n : Nat) : Int) ∧
      intDiv ((routingCount * n : Nat) : Int) grid.total =
        .ok ((routingCount * n / grid.threads : Nat) : Int) := by
  have most : routingCount * grid.threads ≤ 2 ^ 31 - 1 := by
    have product := fits.product
    rw [fits.total, ← Int.natCast_mul] at product
    have bound : ((routingCount * grid.threads : Nat) : Int) ≤ 2147483647 := product
    omega
  have small := (Nat.mul_le_mul_left routingCount within).trans most
  have quotient := (Nat.div_le_self (routingCount * n) grid.threads).trans small
  constructor
  · rw [intMul, ← Int.natCast_mul, int_ok small]
  · have some : grid.total ≠ 0 := by
      have positive := fits.some
      omega
    rw [intDiv, if_neg some, fits.total, ← Int.ofNat_tdiv]
    exact int_ok quotient

theorem Fits.lower_eq (fits : Fits grid routingCount) (runs : grid.Runs thread) :
    lower grid routingCount thread = .ok (first grid routingCount thread : Int) := by
  obtain ⟨multiplies, divides⟩ := fits.share_ok (number_lt runs).le
  rw [lower, fits.idx_eq runs, multiplies]
  exact divides

theorem Fits.upper_eq (fits : Fits grid routingCount) (runs : grid.Runs thread) :
    upper grid routingCount thread = .ok (last grid routingCount thread : Int) := by
  obtain ⟨multiplies, divides⟩ := fits.share_ok (Nat.succ_le_of_lt (number_lt runs))
  have next : intAdd (grid.number thread) 1 = .ok ((grid.number thread + 1 : Nat) : Int) := by
    have below := number_lt runs
    have bound := fits.threads_lt
    have small : grid.number thread + 1 ≤ 2 ^ 31 - 1 := by omega
    rw [intAdd, ← Int.natCast_add_one, int_ok small]
  rw [upper, fits.idx_eq runs, next]
  simp only [Nat.succ_eq_add_one] at multiplies
  simp only [multiplies]
  exact divides

end

/-- Every index below the count is in the share of one thread of the grid, and of one only. -/
theorem Fits.share_unique {grid : Grid} {routingCount : Nat} (fits : Fits grid routingCount) {k : Nat}
    (below : k < routingCount) :
    ∃! thread, grid.Runs thread ∧ first grid routingCount thread ≤ k ∧
      k < last grid routingCount thread := by
  have some := fits.threads_pos
  have counted : 0 < routingCount := Nat.zero_lt_of_lt below
  have blockDim : 0 < grid.blockDim.toNat := Nat.pos_of_mul_pos_left some
  have owner (thread : Thread) : (first grid routingCount thread ≤ k ∧ k < last grid routingCount thread) ↔
      grid.number thread = ((k + 1) * grid.threads - 1) / routingCount := share_iff counted some k _
  have within : ((k + 1) * grid.threads - 1) / routingCount < grid.threads := by
    have most := Nat.mul_le_mul_right grid.threads (Nat.succ_le_of_lt below)
    have positive : 0 < (k + 1) * grid.threads := Nat.mul_pos (Nat.succ_pos k) some
    rw [Nat.div_lt_iff_lt_mul counted, Nat.mul_comm grid.threads]
    exact Nat.lt_of_lt_of_le (Nat.sub_lt positive Nat.one_pos) most
  generalize ((k + 1) * grid.threads - 1) / routingCount = n at owner within
  have blocks : n / grid.blockDim.toNat < grid.gridDim.toNat :=
    (Nat.div_lt_iff_lt_mul blockDim).mpr within
  have threadIdx : n % grid.blockDim.toNat < grid.blockDim.toNat := Nat.mod_lt n blockDim
  have block32 := grid.gridDim.isLt
  have thread32 := grid.blockDim.isLt
  refine ⟨⟨BitVec.ofNat 32 (n / grid.blockDim.toNat), BitVec.ofNat 32 (n % grid.blockDim.toNat)⟩,
    ⟨?_, (owner _).mpr ?_⟩, ?_⟩
  · refine ⟨BitVec.lt_def.mpr ?_, BitVec.lt_def.mpr ?_⟩
    · rwa [BitVec.toNat_ofNat, Nat.mod_eq_of_lt (by omega)]
    · rwa [BitVec.toNat_ofNat, Nat.mod_eq_of_lt (by omega)]
  · rw [Grid.number, BitVec.toNat_ofNat, BitVec.toNat_ofNat, Nat.mod_eq_of_lt (by omega),
      Nat.mod_eq_of_lt (by omega)]
    exact Nat.div_add_mod' n _
  · rintro ⟨blockIdx, threadIdx'⟩ ⟨⟨block, inBlock⟩, share⟩
    have number := (owner _).mp share
    rw [BitVec.lt_def] at inBlock
    simp only [Grid.number] at number inBlock
    congr 1
    · apply BitVec.eq_of_toNat_eq
      rw [BitVec.toNat_ofNat, Nat.mod_eq_of_lt (by omega), ← number, Nat.add_comm,
        Nat.add_mul_div_right _ _ blockDim, Nat.div_eq_of_lt inBlock, Nat.zero_add]
    · apply BitVec.eq_of_toNat_eq
      rw [BitVec.toNat_ofNat, Nat.mod_eq_of_lt (by omega), ← number, Nat.add_comm,
        Nat.add_mul_mod_self_right, Nat.mod_eq_of_lt inBlock]

/-! ## Runs -/

section

variable {grid : Grid} {table : Table} {routing : Nat → Word} {routingCount : Nat}

def left (grid : Grid) (routingCount : Nat) (thread : Thread) : Progress → Nat
  | .ready => last grid routingCount thread - first grid routingCount thread + 2
  | .at i => last grid routingCount thread - i.toNat + 1
  | .done => 0

def Progress.Past (k : Nat) : Progress → Prop
  | .ready => False
  | .at i => (k : Int) < i
  | .done => True

structure Sound (grid : Grid) (table : Table) (routing : Nat → Word) (routingCount : Nat)
    (device : Device) : Prop where
  place : ∀ thread i, grid.Runs thread → device.progress thread = .at i →
    ∃ k : Nat, i = k ∧ first grid routingCount thread ≤ k ∧ k ≤ last grid routingCount thread
  stored : ∀ thread k, grid.Runs thread → first grid routingCount thread ≤ k →
    k < last grid routingCount thread → (device.progress thread).Past k →
    device.results k = table (routing k >>> 8).toNat

theorem lookupCell_ok (table : Table) (routing results : Nat → Word) {k : Nat}
    (below : k < routingCount) :
    lookupCell table routing routingCount k results =
      .ok (Function.update results k (table (routing k >>> 8).toNat)) := by
  rw [lookupCell, if_pos (by omega), Int.toNat_natCast, readCell, if_pos (cell_lt _)]

@[simp] theorem goTo_self (device : Device) (thread : Thread) (place : Progress) :
    (device.goTo thread place).progress thread = place := by
  simp [Device.goTo]

@[simp] theorem goTo_other (device : Device) {thread other : Thread} (different : other ≠ thread)
    (place : Progress) : (device.goTo thread place).progress other = device.progress other := by
  simp [Device.goTo, different]

/-- A thread may go on to a place in its share when what it passes on the way is stored, and
    nothing stored before is lost. -/
theorem Sound.goTo {device : Device} (sound : Sound grid table routing routingCount device)
    {thread : Thread} {place : Progress} {results : Nat → Word}
    (inShare : ∀ i, place = .at i →
      ∃ k : Nat, i = k ∧ first grid routingCount thread ≤ k ∧ k ≤ last grid routingCount thread)
    (kept : ∀ k, device.results k = table (routing k >>> 8).toNat →
      results k = table (routing k >>> 8).toNat)
    (passed : ∀ k, first grid routingCount thread ≤ k → k < last grid routingCount thread →
      place.Past k → (device.progress thread).Past k ∨ results k = table (routing k >>> 8).toNat) :
    Sound grid table routing routingCount ({ device with results }.goTo thread place) := by
  constructor
  · intro other i runs there
    by_cases same : other = thread
    · subst same
      rw [goTo_self] at there
      exact inShare i there
    · rw [goTo_other _ same] at there
      exact sound.place other i runs there
  · intro other k runs low high past
    by_cases same : other = thread
    · subst same
      rw [goTo_self] at past
      exact (passed k low high past).elim (fun before => kept k (sound.stored other k runs low high before)) id
    · rw [goTo_other _ same] at past
      exact kept k (sound.stored other k runs low high past)

theorem turn_ready (fits : Fits grid routingCount) {thread : Thread} (runs : grid.Runs thread)
    {device : Device} (place : device.progress thread = .ready) :
    turn grid table routing routingCount thread device =
      .ok (device.goTo thread (.at (first grid routingCount thread))) := by
  simp only [turn, place, fits.lower_eq runs]

theorem turn_at {thread : Thread} {device : Device} {i last next : Int} {results : Nat → Word}
    (place : device.progress thread = .at i) (bound : upper grid routingCount thread = .ok last)
    (inside : i < last)
    (stores : lookupCell table routing routingCount i device.results = .ok results)
    (counts : intAdd i 1 = .ok next) :
    turn grid table routing routingCount thread device =
      .ok ({ device with results }.goTo thread (.at next)) := by
  simp only [turn, place, bound, inside, if_true, stores, counts]

theorem turn_inside (fits : Fits grid routingCount) {thread : Thread} (runs : grid.Runs thread)
    {device : Device} {k : Nat} (place : device.progress thread = .at k)
    (inside : k < last grid routingCount thread) :
    turn grid table routing routingCount thread device =
      .ok ({ device with
        results := Function.update device.results k (table (routing k >>> 8).toNat) }.goTo thread
          (.at (k + 1 : Nat))) := by
  have most := last_le routingCount runs
  have bound := fits.count_le
  have next : intAdd k 1 = .ok ((k + 1 : Nat) : Int) := by
    have small : k + 1 ≤ 2 ^ 31 - 1 := by omega
    rw [intAdd, ← Int.natCast_add_one, int_ok small]
  have stores := lookupCell_ok table routing device.results (Nat.lt_of_lt_of_le inside most)
  exact turn_at place (fits.upper_eq runs) (Int.ofNat_lt.mpr inside) stores next

theorem turn_outside (fits : Fits grid routingCount) {thread : Thread} (runs : grid.Runs thread)
    {device : Device} {k : Nat} (place : device.progress thread = .at k)
    (outside : ¬ k < last grid routingCount thread) :
    turn grid table routing routingCount thread device = .ok (device.goTo thread .done) := by
  simp only [turn, place, fits.upper_eq runs, Int.ofNat_lt, outside, if_false]

/-- One turn never faults, keeps the device sound and is one turn less for its thread. -/
theorem turn_spec (fits : Fits grid routingCount) {thread : Thread} (runs : grid.Runs thread)
    {device : Device} (sound : Sound grid table routing routingCount device) :
    ∃ next, turn grid table routing routingCount thread device = .ok next ∧
      Sound grid table routing routingCount next ∧
      (∀ other, other ≠ thread → next.progress other = device.progress other) ∧
      left grid routingCount thread (next.progress thread) =
        left grid routingCount thread (device.progress thread) - 1 := by
  have ordered : first grid routingCount thread ≤ last grid routingCount thread := first_le_last
  cases place : device.progress thread with
  | ready =>
    refine ⟨_, turn_ready fits runs place, ?_, fun other different => goTo_other _ different _, ?_⟩
    · refine sound.goTo ?_ (fun k stored => stored) ?_
      · rintro i ⟨⟩
        exact ⟨_, rfl, Nat.le_refl _, ordered⟩
      · intro k low high past
        exact absurd past (Int.not_lt.mpr (Int.ofNat_le.mpr low))
    · rw [goTo_self]
      simp only [left]
      omega
  | «at» i =>
    obtain ⟨k, rfl, low, high⟩ := sound.place thread i runs place
    by_cases inside : k < last grid routingCount thread
    · refine ⟨_, turn_inside fits runs place inside, ?_,
        fun other different => goTo_other _ different _, ?_⟩
      · refine sound.goTo ?_ ?_ ?_
        · rintro i ⟨⟩
          exact ⟨_, rfl, by omega, inside⟩
        · intro j stored
          by_cases here : j = k
          · rw [here, Function.update_self]
          · rw [Function.update_of_ne here, stored]
        · intro j _ _ past
          rcases Nat.lt_succ_iff_lt_or_eq.mp (Int.ofNat_lt.mp past) with before | here
          · exact .inl (place ▸ Int.ofNat_lt.mpr before)
          · exact .inr (by rw [here, Function.update_self])
      · rw [goTo_self]
        simp only [left, Int.toNat_natCast]
        omega
    · refine ⟨_, turn_outside fits runs place inside, ?_,
        fun other different => goTo_other _ different _, ?_⟩
      · refine sound.goTo (fun i there => by cases there) (fun k stored => stored) ?_
        intro j _ last _
        exact .inl (place ▸ Int.ofNat_lt.mpr (by omega))
      · rw [goTo_self]
        simp only [left, Int.toNat_natCast]
        omega
  | done =>
    refine ⟨device, by simp only [turn, place], sound, fun _ _ => rfl, ?_⟩
    simp only [left, place]

/-- Along any schedule a thread has as many turns left as it began with, less those it took. -/
structure Scheduled (grid : Grid) (table : Table) (routing : Nat → Word) (routingCount : Nat)
    (past : List Thread) (device : Device) : Prop where
  sound : Sound grid table routing routingCount device
  turns : ∀ thread, left grid routingCount thread (device.progress thread) =
    left grid routingCount thread .ready - past.count thread

theorem launch_scheduled (results : Nat → Word) :
    Scheduled grid table routing routingCount [] (launch results) := by
  refine ⟨⟨?_, ?_⟩, fun thread => by simp [launch]⟩
  · intro thread i _ there
    cases there
  · intro thread k _ _ _ past
    cases past

theorem run_scheduled (fits : Fits grid routingCount) (results : Nat → Word) {schedule : List Thread}
    (runs : ∀ thread ∈ schedule, grid.Runs thread) :
    ∃ device, iplookupGpu grid table routing routingCount results schedule = .ok device ∧
      Scheduled grid table routing routingCount schedule device := by
  induction schedule using List.reverseRecOn with
  | nil => exact ⟨_, rfl, launch_scheduled results⟩
  | append_singleton schedule thread ih =>
    obtain ⟨device, returns, scheduled⟩ := ih fun thread member =>
      runs thread (List.mem_append_left _ member)
    have member : grid.Runs thread := runs thread (List.mem_append_right _ List.mem_cons_self)
    obtain ⟨next, turns, sound, others, fewer⟩ := turn_spec fits member scheduled.sound
    refine ⟨next, ?_, sound, fun other => ?_⟩
    · rw [iplookupGpu, run_append_ok _ returns, run, turns]
      rfl
    · by_cases same : other = thread
      · subst same
        rw [fewer, scheduled.turns, List.count_append, List.count_singleton_self]
        omega
      · rw [others other same, scheduled.turns, List.count_append,
          List.count_singleton, if_neg (by simpa using Ne.symm same), Nat.add_zero]

end

theorem left_eq_zero (grid : Grid) (routingCount : Nat) (thread : Thread) {place : Progress}
    (none : left grid routingCount thread place = 0) : place = .done := by
  cases place with
  | ready => cases none
  | «at» i => cases none
  | done => rfl

/-- However the threads of a grid that fits are scheduled, none of them faults, each one that
    gets turns enough finishes, and when all have the results are those of the host; the
    shares cover every index once. -/
theorem gpu_agrees_with_host (table : Table) (routing : Nat → Word) {grid : Grid} {routingCount : Nat}
    (fits : Fits grid routingCount) :
    (∀ k < routingCount, ∃! thread, grid.Runs thread ∧ ∃ first last : Int,
      lower grid routingCount thread = .ok first ∧ upper grid routingCount thread = .ok last ∧
        first ≤ k ∧ k < last) ∧
    ∀ schedule, (∀ thread ∈ schedule, grid.Runs thread) → ∀ results,
      ∃ device, iplookupGpu grid table routing routingCount results schedule = .ok device ∧
        (∀ thread, grid.Runs thread → routingCount + 2 ≤ schedule.count thread →
          device.progress thread = .done) ∧
        ((∀ thread, grid.Runs thread → device.progress thread = .done) →
          ∀ hostResults, ∃ found, iplookupHost table routing hostResults routingCount = .ok found ∧
            ∀ k < routingCount, device.results k = found k) := by
  constructor
  · intro k below
    obtain ⟨thread, ⟨runs, low, high⟩, only⟩ := fits.share_unique below
    refine ⟨thread, ⟨runs, _, _, fits.lower_eq runs, fits.upper_eq runs, by omega, by omega⟩, ?_⟩
    rintro other ⟨otherRuns, first, last, lower, upper, low, high⟩
    cases (fits.lower_eq otherRuns).symm.trans lower
    cases (fits.upper_eq otherRuns).symm.trans upper
    exact only other ⟨otherRuns, by omega, by omega⟩
  · intro schedule runs results
    obtain ⟨device, returns, scheduled⟩ := run_scheduled fits results runs
    refine ⟨device, returns, fun thread inGrid turns => ?_, fun finished hostResults => ?_⟩
    · apply left_eq_zero grid routingCount thread
      have most := last_le routingCount inGrid
      rw [scheduled.turns, left]
      omega
    · refine ⟨_, lookupLoop_spec table routing 0 routingCount hostResults, fun k below => ?_⟩
      obtain ⟨thread, ⟨inGrid, low, high⟩, -⟩ := fits.share_unique below
      rw [if_pos (by omega)]
      exact scheduled.sound.stored thread k inGrid low high (by rw [finished thread inGrid]; trivial)

/-- Three addresses for the two threads of a grid of two blocks. -/
theorem gpu_agrees_sample :
    let table : Table := fun cell => BitVec.ofNat 32 (cell + 1)
    let routing : Nat → Word := fun k => BitVec.ofNat 32 (256 * k)
    (∀ k : Nat, k < 3 → ∃! thread, Grid.Runs ⟨2, 1⟩ thread ∧ ∃ first last : Int,
      lower ⟨2, 1⟩ (3 : Nat) thread = .ok first ∧ upper ⟨2, 1⟩ (3 : Nat) thread = .ok last ∧
        first ≤ k ∧ k < last) ∧
    ∀ schedule, (∀ thread ∈ schedule, Grid.Runs ⟨2, 1⟩ thread) → ∀ results,
      ∃ device, iplookupGpu ⟨2, 1⟩ table routing (3 : Nat) results schedule = .ok device ∧
        (∀ thread, Grid.Runs ⟨2, 1⟩ thread → 3 + 2 ≤ schedule.count thread →
          device.progress thread = .done) ∧
        ((∀ thread, Grid.Runs ⟨2, 1⟩ thread → device.progress thread = .done) →
          ∀ hostResults, ∃ found, iplookupHost table routing hostResults 3 = .ok found ∧
            ∀ k : Nat, k < 3 → device.results k = found k) :=
  gpu_agrees_with_host _ _ ⟨by decide, by decide, by decide⟩

end TestPrograms.Iplookup
