import TestPrograms.Foundations.Phase

/-! # Calibrating the time-stamp counter

`get_rdtsc_cycle_per_sec` of `rdtsc.h` polls the clock until a tenth of a second has gone
by and takes ten times what the counter advanced in it.  Of the samples it looks at
`tv_nsec` only, so a second that ends in the meantime shows as a smaller number.
-/

namespace TestPrograms.Rdtsc

open TestPrograms.Foundations

/-- What `clock_gettime` fills in, the nanoseconds always less than a second. -/
structure Timespec where
  tvSec : BitVec 64
  tvNsec : BitVec 64
  normal : tvNsec < 1000000000#64
deriving DecidableEq

def Timespec.nanoseconds (ts : Timespec) : Int := ts.tvSec.toInt * 1000000000 + ts.tvNsec.toNat

/-- The loop on the samples that the clock gives it: how many it has taken before the one
    it ends at, if it ends at one of these. -/
def wait (startnsec : BitVec 64) : List Timespec → Option Nat
  | [] => none
  | ts :: samples =>
    -- The sum is left in `ts.tv_nsec`, which the next sample overwrites.  Both tests have an
    -- unsigned side, so neither is of signed numbers.
    let nsec := if startnsec > ts.tvNsec then ts.tvNsec + 1000000000#64 else ts.tvNsec
    if nsec < startnsec + 100000000#64 then (wait startnsec samples).map (· + 1) else some 0

/-- The rate returned and left in `rdtsc_cycles_per_sec`; `rdtsc n` is what the counter
    reads after `n` samples. -/
def getRdtscCyclePerSec (first : Timespec) (samples : List Timespec) (rdtsc : Nat → BitVec 64) :
    Option (BitVec 64) :=
  (wait first.tvNsec samples).map fun taken => (rdtsc (taken + 1) - rdtsc 0) * 10#64

theorem Timespec.nanoseconds_emod (ts : Timespec) : ts.nanoseconds % 1000000000 = ts.tvNsec.toNat := by
  have below : ts.tvNsec.toNat < 1000000000 := ts.normal
  rw [nanoseconds, Int.add_comm, Int.add_mul_emod_self_right]
  exact Int.emod_eq_of_lt (Int.natCast_nonneg _) (by omega)

/-- The loop's test on a sample: the lifted phase is not yet a tenth of a second on. -/
theorem waits_iff (start ts : Timespec) :
    (if start.tvNsec > ts.tvNsec then ts.tvNsec + 1000000000#64 else ts.tvNsec) <
        start.tvNsec + 100000000#64 ↔
      ¬ start.nanoseconds % 1000000000 + 100000000 ≤
        lifted 1000000000 (start.nanoseconds % 1000000000) (ts.nanoseconds % 1000000000) := by
  have first : start.tvNsec.toNat < 1000000000 := start.normal
  have below : ts.tvNsec.toNat < 1000000000 := ts.normal
  have target : (start.tvNsec + 100000000#64).toNat = start.tvNsec.toNat + 100000000 := by
    rw [BitVec.toNat_add_of_lt (by simp only [BitVec.toNat_ofNat]; omega)]
    rfl
  have sum : (ts.tvNsec + 1000000000#64).toNat = ts.tvNsec.toNat + 1000000000 := by
    rw [BitVec.toNat_add_of_lt (by simp only [BitVec.toNat_ofNat]; omega)]
    rfl
  rw [start.nanoseconds_emod, ts.nanoseconds_emod, lifted, BitVec.lt_def, target]
  by_cases crossed : ts.tvNsec.toNat < start.tvNsec.toNat
  · rw [if_pos (BitVec.lt_def.mpr crossed), if_pos (by omega), sum]
    omega
  · rw [if_neg (mt BitVec.lt_def.mp crossed), if_neg (by omega)]
    omega

theorem wait_eq_findIdx? (start : Timespec) (samples : List Timespec) :
    wait start.tvNsec samples = samples.findIdx? fun ts =>
      start.nanoseconds % 1000000000 + 100000000 ≤
        lifted 1000000000 (start.nanoseconds % 1000000000) (ts.nanoseconds % 1000000000) := by
  induction samples with
  | nil => rfl
  | cons ts samples ih =>
    rw [wait, List.findIdx?_cons]
    simp only [waits_iff, ih]
    split <;> rename_i waits
    · rw [if_neg (by simpa using waits)]
    · rw [if_pos (by simpa using waits)]

/-- Whatever the phase of the start, the loop ends at the first sample a tenth of a second
    after it, when the clock is polled every nine tenths of a second at least. -/
theorem calibration_window (start : Timespec) (samples : List Timespec)
    (polled : Polled 900000000 ((start :: samples).map Timespec.nanoseconds)) :
    wait start.tvNsec samples =
        samples.findIdx? (fun ts => start.nanoseconds + 100000000 ≤ ts.nanoseconds) ∧
      ∀ rdtsc : Nat → BitVec 64, getRdtscCyclePerSec start samples rdtsc =
        (samples.findIdx? fun ts => start.nanoseconds + 100000000 ≤ ts.nanoseconds).map
          fun taken => (rdtsc (taken + 1) - rdtsc 0) * 10#64 := by
  have ends : wait start.tvNsec samples =
      samples.findIdx? fun ts => start.nanoseconds + 100000000 ≤ ts.nanoseconds := by
    rw [wait_eq_findIdx?]
    have often : (100000000 : Int) + 900000000 ≤ 1000000000 := by decide
    have agree := findIdx?_lifted start.nanoseconds often polled le_rfl (by omega)
    rw [List.findIdx?_map, List.findIdx?_map] at agree
    exact agree
  refine ⟨ends, fun rdtsc => ?_⟩
  rw [getRdtscCyclePerSec, ends]

/-- A start fifty milliseconds before the second ends. -/
theorem calibration_window_across_second :
    let start : Timespec := ⟨7, 950000000, by decide⟩
    let samples : List Timespec :=
      [⟨7, 960000000, by decide⟩, ⟨8, 49999999, by decide⟩, ⟨8, 50000000, by decide⟩]
    wait start.tvNsec samples =
        samples.findIdx? (fun ts => start.nanoseconds + 100000000 ≤ ts.nanoseconds) ∧
      samples.findIdx? (fun ts => start.nanoseconds + 100000000 ≤ ts.nanoseconds) = some 2 :=
  ⟨(calibration_window _ _ (by unfold Polled; decide)).1, by decide⟩

end TestPrograms.Rdtsc
