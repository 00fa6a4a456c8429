import Mathlib.Data.List.Chain
import Mathlib.Data.Int.ModEq

/-! # Clocks seen by their phase

A clock of which only the phase within its period is read.  A phase below the one at the
start is taken to lie in the next period, which tells the time elapsed as long as that is
less than a period; a watch that is polled often enough stops before it is more.
-/

namespace TestPrograms.Foundations

/-- The phase `now`, in the next period when it is below the phase at the start. -/
def lifted (period start now : Int) : Int := if now < start then now + period else now

theorem lifted_emod (period : Int) {start now : Int} (later : start ≤ now) (within : now < start + period) :
    lifted period (start % period) (now % period) = start % period + (now - start) := by
  have positive : 0 < period := by omega
  have low := Int.emod_nonneg start positive.ne'
  have high := Int.emod_lt_of_pos start positive
  have shifted : now % period = (start % period + (now - start)) % period := by
    rw [Int.emod_add_emod, add_sub_cancel]
  rw [lifted]
  by_cases same : start % period + (now - start) < period
  · rw [shifted, Int.emod_eq_of_lt (by omega) same, if_neg (by omega)]
  · have next : (start % period + (now - start)) % period = start % period + (now - start) - period := by
      rw [← Int.sub_emod_right, Int.emod_eq_of_lt (by omega) (by omega)]
    rw [shifted, next, if_pos (by omega)]
    omega

/-- The next sample is no earlier than this one and comes less than `gap` after it. -/
def Polled (gap : Int) : List Int → Prop :=
  List.IsChain fun sample next => sample ≤ next ∧ next < sample + gap

/-- Polled so often that no wait between samples makes up for a period, the lifted phase
    reaches the limit at the sample at which the time does. -/
theorem findIdx?_lifted {period limit gap : Int} (start : Int) (often : limit + gap ≤ period)
    {last : Int} {samples : List Int} (polled : Polled gap (last :: samples))
    (later : start ≤ last) (early : last < start + limit) :
    samples.findIdx? (fun now => start % period + limit ≤ lifted period (start % period) (now % period)) =
      samples.findIdx? (fun now => start + limit ≤ now) := by
  induction samples generalizing last with
  | nil => rfl
  | cons now samples ih =>
    obtain ⟨⟨after, soon⟩, rest⟩ := List.isChain_cons_cons.mp polled
    have elapsed := lifted_emod period (later.trans after) (by omega)
    have agree : (start % period + limit ≤ lifted period (start % period) (now % period)) ↔
        start + limit ≤ now := by
      rw [elapsed]
      omega
    rw [List.findIdx?_cons, List.findIdx?_cons]
    simp only [agree]
    by_cases reached : start + limit ≤ now
    · simp only [reached, decide_true, if_true]
    · rw [ih rest (later.trans after) (not_le.mp reached)]

end TestPrograms.Foundations
