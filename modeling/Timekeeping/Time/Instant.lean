import Timekeeping.Time.Duration

/-!
Points in time, counted from the epoch.
-/
namespace Timekeeping

structure Instant extends Ticks
deriving DecidableEq

namespace Instant

instance : LT Instant := ⟨fun a b => a.toTicks < b.toTicks⟩

instance : LE Instant := ⟨fun a b => a.toTicks ≤ b.toTicks⟩

instance (a b : Instant) : Decidable (a < b) := inferInstanceAs (Decidable (a.toTicks < b.toTicks))

instance (a b : Instant) : Decidable (a ≤ b) := inferInstanceAs (Decidable (a.toTicks ≤ b.toTicks))

def ofTotal (n : Int) : Instant := ⟨Ticks.ofTotal n⟩

def epoch : Instant := ⟨⟨0, 0⟩⟩

instance : Inhabited Instant := ⟨epoch⟩

def ofSeconds (n : Int64) : Instant := ⟨⟨n, 0⟩⟩

def ofMicros (secs : Int64) (micros : UInt32) : Instant :=
  ofTotal (secs.toInt * picosPerSecond + micros.toNat * 1000000)

/-- Nanoseconds from the epoch, of either sign. -/
def ofNanos (n : Int) : Instant := ofTotal (n * 1000)

/-- Seconds and a fraction `frac / hz` of one, cut to whole picoseconds; `none` without ticks. -/
def ofParts? (secs : Int64) (frac hz : UInt64) : Option Instant :=
  if hz = 0 then none
  else some (ofTotal (secs.toInt * picosPerSecond +
    (frac.toNat * picosPerSecond.toNat / hz.toNat : Nat)))

def add (t : Instant) (d : Duration) : Instant := ofTotal (t.total + d.total)

def sub (t : Instant) (d : Duration) : Instant := ofTotal (t.total - d.total)

/-- The span from `s` to `t`. -/
def since (t s : Instant) : Duration := Duration.ofTotal (t.total - s.total)

instance : HAdd Instant Duration Instant := ⟨add⟩

instance : HSub Instant Duration Instant := ⟨sub⟩

instance : HSub Instant Instant Duration := ⟨since⟩

/-- Whole nanoseconds from the epoch, rounded toward the past. -/
def nanos (t : Instant) : Int := t.total / 1000

instance : ToString Instant := ⟨fun t => String.ofList (Ticks.decimalDigits t.total)⟩

def inspect (t : Instant) : String := "TimeValue \x7b " ++ t.toTicks.inspect ++ " \x7d"

end Instant
end Timekeeping
