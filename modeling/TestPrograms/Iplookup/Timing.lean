import Mathlib.Tactic.Ring

/-! # What the look-ups are reported to take

`main` reads the time-stamp counter twice with nothing in between, keeps the difference in
the `int` `loss`, and takes it off every measurement before `print_time_sec` of `rtdsc.h`
turns cycles into nanoseconds in 64 bits.
-/

namespace TestPrograms.Iplookup

/-- `stop` is the field `end`. -/
structure TimeWatcher where
  start : BitVec 64
  stop : BitVec 64
deriving DecidableEq

def TimeWatcher.startAt (tw : TimeWatcher) (rdtsc : BitVec 64) : TimeWatcher := { tw with start := rdtsc }

def TimeWatcher.endAt (tw : TimeWatcher) (rdtsc : BitVec 64) : TimeWatcher := { tw with stop := rdtsc }

/-- `int loss = tw.end - tw.start` -/
def TimeWatcher.loss (tw : TimeWatcher) : BitVec 32 := (tw.stop - tw.start).setWidth 32

structure Report where
  ns : BitVec 64
  cycles : BitVec 64
deriving DecidableEq

/-- The two numbers printed; there are none when the division traps. -/
def printTimeSec (cpuCyclesPerSec : BitVec 64) (tw : TimeWatcher) : Option Report :=
  if cpuCyclesPerSec = 0#64 then none
  else some
    { ns := (tw.stop - tw.start) * 1000000000#64 / cpuCyclesPerSec
      cycles := tw.stop - tw.start }

def measure (cpuCyclesPerSec : BitVec 64) (loss : BitVec 32) (tw : TimeWatcher)
    (started ended : BitVec 64) : Option Report :=
  let tw := (tw.startAt started).endAt ended
  -- The `int` is converted to the wider type with its sign.
  printTimeSec cpuCyclesPerSec { tw with stop := tw.stop - loss.signExtend 64 }

/-- The counter as `main` reads it, never lower than the time before. -/
structure Readings where
  t0 : BitVec 64
  t1 : BitVec 64
  t2 : BitVec 64
  t3 : BitVec 64
  calibrated : t0 ≤ t1
  between : t1 ≤ t2
  measured : t2 ≤ t3

/-- What `main` prints: the host's time, and the device's where there is one. -/
def mainReports (cpuCyclesPerSec : BitVec 64) (t : Readings) (device : Option (BitVec 64 × BitVec 64)) :
    Option (List Report) := do
  let tw := (TimeWatcher.startAt ⟨0, 0⟩ t.t0).endAt t.t1
  let loss := tw.loss
  let host ← measure cpuCyclesPerSec loss tw t.t2 t.t3
  match device with
  | none => return [host]
  | some (t4, t5) => return [host, ← measure cpuCyclesPerSec loss tw t4 t5]

namespace Readings

def loss (t : Readings) : BitVec 32 := (TimeWatcher.mk t.t0 t.t1).loss

/-- Cycles between two readings with nothing in between. -/
def overhead (t : Readings) : Nat := t.t1.toNat - t.t0.toNat

def interval (t : Readings) : Nat := t.t3.toNat - t.t2.toNat

end Readings

/-- The report is that of the interval less the overhead, nothing lost on the way. -/
structure Report.Exact (cpuCyclesPerSec : BitVec 64) (t : Readings) (report : Report) : Prop where
  loss : t.loss.toInt = t.overhead
  cycles : report.cycles.toNat = t.interval - t.overhead
  ns : report.ns.toNat = (t.interval - t.overhead) * 1000000000 / cpuCyclesPerSec.toNat

/-! ## Where each width ends -/

/-- A quotient shows a wrap of what is divided, whatever is divided by. -/
theorem mod_div_eq_iff {n m d : Nat} (positive : 0 < d) (below : d < m) : n % m / d = n / d ↔ n < m := by
  refine ⟨fun same => ?_, fun small => by rw [Nat.mod_eq_of_lt small]⟩
  by_contra large
  have reduced : n % m + m ≤ n := by
    have split := Nat.mod_add_div n m
    have some : 1 ≤ n / m := (Nat.one_le_div_iff (by omega)).mpr (by omega)
    have := Nat.mul_le_mul_left m some
    omega
  have more : n % m / d + 1 ≤ n / d := by
    rw [← Nat.add_div_right _ positive]
    exact Nat.div_le_div_right (by omega)
  omega

theorem toInt_setWidth_iff (x : BitVec 64) : (x.setWidth 32).toInt = x.toNat ↔ x.toNat < 2 ^ 31 := by
  constructor
  · intro same
    have top : (x.setWidth 32).toInt < 2 ^ 31 := BitVec.toInt_lt
    omega
  · intro small
    have narrow : (x.setWidth 32).toNat = x.toNat := by
      rw [BitVec.toNat_setWidth, Nat.mod_eq_of_lt (by omega)]
    rw [BitVec.toInt_eq_toNat_of_lt (by omega), narrow]

theorem signExtend_setWidth {x : BitVec 64} (small : x.toNat < 2 ^ 31) :
    (x.setWidth 32).signExtend 64 = x := by
  apply BitVec.eq_of_toInt_eq
  rw [BitVec.toInt_signExtend_of_le (by decide), (toInt_setWidth_iff x).mpr small,
    BitVec.toInt_eq_toNat_of_lt (by omega)]

namespace Readings

variable (t : Readings)

theorem toNat_overhead : (t.t1 - t.t0).toNat = t.overhead := BitVec.toNat_sub_of_le t.calibrated

theorem toNat_interval : (t.t3 - t.t2).toNat = t.interval := BitVec.toNat_sub_of_le t.measured

theorem loss_exact_iff : t.loss.toInt = t.overhead ↔ t.overhead < 2 ^ 31 := by
  rw [← t.toNat_overhead]
  exact toInt_setWidth_iff (t.t1 - t.t0)

theorem cycles_eq (small : t.overhead < 2 ^ 31) :
    t.t3 - t.loss.signExtend 64 - t.t2 = (t.t3 - t.t2) - (t.t1 - t.t0) := by
  rw [← t.toNat_overhead] at small
  rw [loss, TimeWatcher.loss, signExtend_setWidth small]
  generalize t.t1 - t.t0 = overhead
  bv_omega

theorem cycles_exact_iff (small : t.overhead < 2 ^ 31) :
    (t.t3 - t.loss.signExtend 64 - t.t2).toNat = t.interval - t.overhead ↔ t.overhead ≤ t.interval := by
  rw [t.cycles_eq small]
  by_cases longer : t.overhead ≤ t.interval
  · rw [BitVec.toNat_sub_of_le, t.toNat_interval, t.toNat_overhead]
    · exact iff_of_true rfl longer
    · rwa [BitVec.le_def, t.toNat_interval, t.toNat_overhead]
  · have wraps := BitVec.toNat_sub (t.t3 - t.t2) (t.t1 - t.t0)
    have bound := (t.t1 - t.t0).isLt
    rw [t.toNat_interval, t.toNat_overhead] at wraps
    rw [t.toNat_overhead] at bound
    refine iff_of_false ?_ longer
    omega

end Readings

theorem Report.exact_iff {cpuCyclesPerSec : BitVec 64} (runs : 0#64 < cpuCyclesPerSec) (t : Readings) :
    Report.Exact cpuCyclesPerSec t
        { ns := (t.t3 - t.loss.signExtend 64 - t.t2) * 1000000000#64 / cpuCyclesPerSec
          cycles := t.t3 - t.loss.signExtend 64 - t.t2 } ↔
      t.overhead < 2 ^ 31 ∧ t.overhead ≤ t.interval ∧
        (t.interval - t.overhead) * 1000000000 < 2 ^ 64 := by
  have product {cycles : BitVec 64} (exact : cycles.toNat = t.interval - t.overhead) :
      (cycles * 1000000000#64 / cpuCyclesPerSec).toNat =
          (t.interval - t.overhead) * 1000000000 / cpuCyclesPerSec.toNat ↔
        (t.interval - t.overhead) * 1000000000 < 2 ^ 64 := by
    rw [BitVec.toNat_udiv, BitVec.toNat_mul, exact]
    exact mod_div_eq_iff (BitVec.lt_def.mp runs) cpuCyclesPerSec.isLt
  constructor
  · intro report
    have small := t.loss_exact_iff.mp report.loss
    exact ⟨small, (t.cycles_exact_iff small).mp report.cycles, (product report.cycles).mp report.ns⟩
  · rintro ⟨small, longer, inRange⟩
    have cycles := (t.cycles_exact_iff small).mpr longer
    exact { loss := t.loss_exact_iff.mpr small, cycles := cycles, ns := (product cycles).mpr inRange }

theorem printTimeSec_some {cpuCyclesPerSec : BitVec 64} (runs : 0#64 < cpuCyclesPerSec)
    (tw : TimeWatcher) : printTimeSec cpuCyclesPerSec tw = some
      { ns := (tw.stop - tw.start) * 1000000000#64 / cpuCyclesPerSec
        cycles := tw.stop - tw.start } := by
  refine if_neg ?_
  rintro rfl
  exact absurd runs (by decide)

/-- The first report printed is the host's. -/
theorem mainReports_host {cpuCyclesPerSec : BitVec 64} (runs : 0#64 < cpuCyclesPerSec) (t : Readings)
    (device : Option (BitVec 64 × BitVec 64)) :
    ∃ others, mainReports cpuCyclesPerSec t device = some
      ({ ns := (t.t3 - t.loss.signExtend 64 - t.t2) * 1000000000#64 / cpuCyclesPerSec
         cycles := t.t3 - t.loss.signExtend 64 - t.t2 } :: others) := by
  cases device with
  | none => exact ⟨[], by simp only [mainReports, measure, printTimeSec_some runs]; rfl⟩
  | some readings => exact ⟨[_], by simp only [mainReports, measure, printTimeSec_some runs]; rfl⟩

/-- The second is the device's, of its own interval `d.t2` to `d.t3` and the same overhead; it
    is exact where the host's would be. -/
theorem device_report_exact_iff {cpuCyclesPerSec : BitVec 64} (runs : 0#64 < cpuCyclesPerSec)
    (t d : Readings) (first : d.t0 = t.t0) (second : d.t1 = t.t1) :
    ∃ host device, mainReports cpuCyclesPerSec t (some (d.t2, d.t3)) = some [host, device] ∧
      (device.Exact cpuCyclesPerSec d ↔
        d.overhead < 2 ^ 31 ∧ d.overhead ≤ d.interval ∧
          (d.interval - d.overhead) * 1000000000 < 2 ^ 64) := by
  have sameLoss : d.loss = t.loss := by rw [Readings.loss, first, second, Readings.loss]
  let host : Report :=
    { ns := (t.t3 - t.loss.signExtend 64 - t.t2) * 1000000000#64 / cpuCyclesPerSec
      cycles := t.t3 - t.loss.signExtend 64 - t.t2 }
  refine ⟨host, _, ?_, Report.exact_iff runs d⟩
  rw [sameLoss]
  simp only [mainReports, measure, printTimeSec_some runs]
  rfl

/-- The host's report is exact on just those readings at which no width is exceeded. -/
theorem report_exact_iff (cpuCyclesPerSec : BitVec 64) (runs : 0#64 < cpuCyclesPerSec) (t : Readings)
    (device : Option (BitVec 64 × BitVec 64)) :
    (∃ report others, mainReports cpuCyclesPerSec t device = some (report :: others) ∧
        report.Exact cpuCyclesPerSec t) ↔
      t.overhead < 2 ^ 31 ∧ t.overhead ≤ t.interval ∧
        (t.interval - t.overhead) * 1000000000 < 2 ^ 64 := by
  obtain ⟨rest, printed⟩ := mainReports_host runs t device
  rw [← Report.exact_iff runs t, printed]
  constructor
  · rintro ⟨report, others, same, exact⟩
    obtain ⟨rfl, rfl⟩ := List.cons.inj (Option.some.inj same)
    exact exact
  · intro exact
    exact ⟨_, rest, rfl, exact⟩

/-- Thirty cycles of overhead, and a million measured at 2.5 GHz. -/
theorem report_exact_iff_short :
    let t : Readings := ⟨1000#64, 1030#64, 2000#64, 1002030#64, by decide, by decide, by decide⟩
    ∃ report others, mainReports 2500000000#64 t none = some (report :: others) ∧
      report.Exact 2500000000#64 t :=
  (report_exact_iff _ (by decide) _ _).mpr (by decide)

/-- Ten milliseconds lost between the first two readings, one measured. -/
theorem report_overhead_longer :
    let t : Readings := ⟨1000#64, 25001000#64, 25002000#64, 27502000#64, by decide, by decide, by decide⟩
    mainReports 2500000000#64 t none =
        some [{ ns := 7369697629#64, cycles := 18446744073687051616#64 }] ∧
      t.interval - t.overhead = 0 ∧
      ¬ ∃ report others, mainReports 2500000000#64 t none = some (report :: others) ∧
        report.Exact 2500000000#64 t := by
  intro t
  have printed : mainReports 2500000000#64 t none =
      some [{ ns := 7369697629#64, cycles := 18446744073687051616#64 }] := by decide
  refine ⟨printed, by decide, ?_⟩
  rintro ⟨report, others, same, exact⟩
  obtain ⟨rfl, rfl⟩ := List.cons.inj (Option.some.inj (printed.symm.trans same))
  exact absurd exact.cycles (by decide)

end TestPrograms.Iplookup
