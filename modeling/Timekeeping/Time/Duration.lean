import Timekeeping.Number.Binary64
import Timekeeping.Time.Ticks

/-!
Signed spans of time. Sums, differences and multiples are taken on totals and
split again, so they are exact while the result fits the stored form.
-/
namespace Timekeeping

structure Duration extends Ticks
deriving DecidableEq

namespace Duration

instance : LT Duration := ⟨fun a b => a.toTicks < b.toTicks⟩

instance : LE Duration := ⟨fun a b => a.toTicks ≤ b.toTicks⟩

instance (a b : Duration) : Decidable (a < b) := inferInstanceAs (Decidable (a.toTicks < b.toTicks))

instance (a b : Duration) : Decidable (a ≤ b) := inferInstanceAs (Decidable (a.toTicks ≤ b.toTicks))

def ofTotal (n : Int) : Duration := ⟨Ticks.ofTotal n⟩

def zero : Duration := ⟨⟨0, 0⟩⟩

instance : Inhabited Duration := ⟨zero⟩

def ofSeconds (n : Int64) : Duration := ⟨⟨n, 0⟩⟩

def ofMillis (n : Int64) : Duration := ofTotal (n.toInt * 1000000000)

/-- Seconds, microseconds and picoseconds, each of either sign and any size. -/
def ofComponents (secs micros picos : Int64) : Duration :=
  ofTotal (secs.toInt * picosPerSecond + micros.toInt * 1000000 + picos.toInt)

def ofNanos (n : Nat) : Duration := ofTotal (n * 1000)

/-- A number of seconds to the nearest picosecond; `none` unless it is finite and less than
`9.2e18` in size. -/
def ofSecondsReal? : Binary64 → Option Duration
  | .finite q =>
    if q ≤ -9200000000000000000 ∨ 9200000000000000000 ≤ q then none
    else
      let whole := Binary64.truncate q
      match Binary64.round ((q - whole) * 1000000000000) with
      | .finite fraction => some (ofTotal (whole * picosPerSecond + Binary64.roundHalfAway fraction))
      | _ => none
  | _ => none

def add (a b : Duration) : Duration := ofTotal (a.total + b.total)

def sub (a b : Duration) : Duration := ofTotal (a.total - b.total)

def neg (a : Duration) : Duration := ofTotal (-a.total)

instance : Add Duration := ⟨add⟩

instance : Sub Duration := ⟨sub⟩

instance : Neg Duration := ⟨neg⟩

/-- Totals are kept in words of 128 bits. -/
def minTotal : Int := -170141183460469231731687303715884105728

def maxTotal : Int := 170141183460469231731687303715884105727

/-- The total that is nearest to `n` among those a word can hold. -/
def clampTotal (n : Int) : Int := max minTotal (min maxTotal n)

/-- A multiple of the span. The product stops at the ends of the range of totals. -/
def times (a : Duration) (count : Int) : Duration := ofTotal (clampTotal (a.total * count))

def IsNegative (a : Duration) : Prop := a.secs < 0

instance (a : Duration) : Decidable a.IsNegative := inferInstanceAs (Decidable (_ < _))

def IsPositive (a : Duration) : Prop := 0 < a.secs ∨ a.secs = 0 ∧ 0 < a.picos

instance (a : Duration) : Decidable a.IsPositive := inferInstanceAs (Decidable (_ ∨ _))

/-- How many whole `unit`s lie in the span, rounded down; `0` when `unit` is not positive. -/
def wholeUnits (a unit : Duration) : Int :=
  if unit.IsPositive then a.total / unit.total else 0

/-- The nearest binary64 number of seconds to the seconds, plus that to the fraction. -/
def toReal (a : Duration) : Binary64 :=
  match Binary64.round a.secs.toInt, (Binary64.round (a.picos.toNat : Int)).scale (mkRat 1 1000000000000) with
  | .finite secs, .finite fraction => Binary64.round (secs + fraction)
  | _, _ => .nan

/-- Whole nanoseconds, for a span that is not negative and whose fraction counts fewer than
`2^32` of them. -/
def toNanos? (a : Duration) : Option Nat :=
  let nanos := a.picos.toNat / 1000
  if a.IsNegative ∨ 4294967295 < nanos then none
  else some (a.secs.toInt.toNat * 1000000000 + nanos)

instance : ToString Duration := ⟨fun a => String.ofList (Ticks.decimalDigits a.total ++ ['s'])⟩

def inspect (a : Duration) : String := "Duration \x7b " ++ a.toTicks.inspect ++ " \x7d"

end Duration
end Timekeeping
