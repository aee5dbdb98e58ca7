import Timekeeping.Proofs.Time.Multiples
import Timekeeping.Proofs.Time.Totals
import Mathlib.Order.Bounds.Defs

/-!
Each instant has a next multiple of each positive period. It is the least one after the instant,
also before the epoch and for an instant that is a multiple itself, and no word on the way to it is
too narrow.
-/
namespace Timekeeping.Instant

/-- The multiples of a period after an instant, in picoseconds from the epoch. -/
def multiplesAfter (t : Instant) (period : Duration) : Set Int :=
  {n | t.total < n ∧ period.total ∣ n}

/-- The next multiple of a period is found, and stored unless it is out of range. -/
structure FindsNext (t : Instant) (period : Duration) (m : Int) : Prop where
  least : IsLeast (t.multiplesAfter period) m
  within : m ≤ t.total + period.total
  found : t.nextAligned? period = some (ofTotal m)
  stored : Ticks.Representable m → (ofTotal m).Stores m
  later : Ticks.Representable m → t < ofTotal m
  le_add : Ticks.Representable (t.total + period.total) → ofTotal m ≤ t + period

variable {t : Instant} {period : Duration}

theorem isLeast_multipleAfter (hpositive : period.IsPositive) :
    IsLeast (t.multiplesAfter period) (t.multipleAfter period) := by
  constructor
  · exact ⟨lt_multipleAfter hpositive, dvd_multipleAfter t period⟩
  · rintro n ⟨hlater, hmultiple⟩
    exact multipleAfter_le hpositive hlater hmultiple

theorem finds_next (hpositive : period.IsPositive) : ∃ m, t.FindsNext period m := by
  have hafter : t.total < t.multipleAfter period := lt_multipleAfter hpositive
  have hnear : t.multipleAfter period ≤ t.total + period.total := multipleAfter_le_add hpositive
  refine ⟨t.multipleAfter period, isLeast_multipleAfter hpositive, hnear,
    nextAligned?_eq hpositive, Ticks.stores_ofTotal, ?_, ?_⟩
  · intro hstored
    have htotal : (ofTotal (t.multipleAfter period)).total = t.multipleAfter period :=
      Ticks.total_ofTotal hstored
    exact Ticks.lt_of_total_lt (ofTotal_normal _) (htotal.symm ▸ hafter)
  · intro hsum
    have hstored : Ticks.Representable (t.multipleAfter period) :=
      .of_le_of_le t.toTicks.le_total hafter.le hnear hsum
    exact (Ticks.ofTotal_le_iff hstored hsum).mpr hnear

/-- Two minutes before the epoch is a multiple of a minute, and the next one follows a minute
later. -/
theorem finds_next_beforeEpoch :
    (Duration.ofSeconds 60).IsPositive ∧
      (∃ m, (ofSeconds (-120)).FindsNext (.ofSeconds 60) m) ∧
      (ofSeconds (-120)).nextAligned? (.ofSeconds 60) = some (ofSeconds (-60)) :=
  ⟨by decide, finds_next (by decide), by decide⟩

end Timekeeping.Instant
