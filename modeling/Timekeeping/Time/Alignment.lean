import Timekeeping.Time.Instant

/-!
The next instant on a grid of multiples of a period, counted from the epoch.
A grid whose period is not a whole number of picoseconds is refined by doubling
until the period is whole.
-/
namespace Timekeeping.Instant

/-- The number itself while a word of 128 bits can hold it. -/
def checkTotal (n : Int) : Option Int :=
  if Duration.minTotal ≤ n ∧ n ≤ Duration.maxTotal then some n else none

/-- The least multiple of `step` above `ticks`, while words can hold it. -/
def nextMultiple? (ticks step : Int) : Option Int := do
  let count ← checkTotal (ticks / step + 1)
  checkTotal (count * step)

/-- The first instant after `t` that is a multiple of `period`. -/
def nextAligned? (t : Instant) (period : Duration) : Option Instant :=
  if period.IsPositive then (nextMultiple? t.total period.total).map ofTotal else none

/-- Doubles a number of ticks until it is whole, at most `doublings` times. Returns it with the
factor by which it grew. -/
def refine : Nat → Rat → Int → Rat × Int
  | 0, ticks, factor => (ticks, factor)
  | doublings + 1, ticks, factor =>
    if ticks.den = 1 then (ticks, factor) else refine doublings (ticks * 2) (factor * 2)

/-- The binary64 number nearest to `10^37`. No period has as many ticks. -/
def tickBound : Rat := 9999999999999999538762658202121142272

/-- The grid of a period: its ticks, and how many make a picosecond. -/
def grid? : Binary64 → Option (Int × Int)
  | .finite seconds =>
    if seconds ≤ 0 then none
    else match (Binary64.finite seconds).scale 1000000000000 with
      | .finite picos =>
        let (ticks, factor) := refine 64 picos 1
        if tickBound ≤ ticks then none
        else
          let step := Binary64.roundHalfAway ticks
          if step ≤ 0 then none else some (step, factor)
      | _ => none
  | _ => none

/-- The first whole picosecond not before the next multiple of a period in seconds. -/
def nextAlignedReal? (t : Instant) (period : Binary64) : Option Instant := do
  let (step, factor) ← grid? period
  let ticks ← checkTotal (t.total * factor)
  let next ← nextMultiple? ticks step
  some (ofTotal (next / factor + if next % factor = 0 then 0 else 1))

end Timekeeping.Instant
