/-!
The stored form of a time value: whole seconds and a picosecond fraction. Its
total in picoseconds is what it means. Totals are split by floor division, and
seconds that do not fit their word stop at the nearest end of its range while
the fraction is kept.
-/
namespace Timekeeping

/-- Picoseconds in one second. -/
def picosPerSecond : Int := 1000000000000

/-- Seconds and picoseconds as stored. The fraction of a value that was read in may reach a
second or more. -/
structure Ticks where
  secs : Int64
  picos : UInt64
deriving DecidableEq

namespace Ticks

def total (t : Ticks) : Int := t.secs.toInt * picosPerSecond + t.picos.toNat

/-- The word nearest to `n`. -/
def clampSeconds (n : Int) : Int64 :=
  if n < Int64.minValue.toInt then Int64.minValue
  else if Int64.maxValue.toInt < n then Int64.maxValue
  else Int64.ofInt n

def ofTotal (n : Int) : Ticks where
  secs := clampSeconds (n / picosPerSecond)
  picos := UInt64.ofNat (n % picosPerSecond).toNat

/-- The fraction is less than a second. -/
def Normal (t : Ticks) : Prop := (t.picos.toNat : Int) < picosPerSecond

instance (t : Ticks) : Decidable t.Normal := inferInstanceAs (Decidable (_ < _))

/-- Values compare by seconds first and then by the stored fraction. -/
instance : LT Ticks := ⟨fun a b => a.secs < b.secs ∨ a.secs = b.secs ∧ a.picos < b.picos⟩

instance : LE Ticks := ⟨fun a b => a.secs < b.secs ∨ a.secs = b.secs ∧ a.picos ≤ b.picos⟩

instance (a b : Ticks) : Decidable (a < b) := inferInstanceAs (Decidable (_ ∨ _))

instance (a b : Ticks) : Decidable (a ≤ b) := inferInstanceAs (Decidable (_ ∨ _))

/-- The digits of a fraction of twelve places, zeros at the end left out. -/
def fractionDigits (picos : Nat) : List Char :=
  let digits := Nat.toDigits 10 picos
  let padded := List.replicate (12 - digits.length) '0' ++ digits
  (padded.reverse.dropWhile (· == '0')).reverse

/-- A total as a signed decimal number of seconds. -/
def decimalDigits (n : Int) : List Char :=
  let sign := if n < 0 then ['-'] else []
  let whole := Nat.toDigits 10 (n.natAbs / picosPerSecond.toNat)
  let picos := n.natAbs % picosPerSecond.toNat
  sign ++ whole ++ (if picos = 0 then [] else '.' :: fractionDigits picos)

/-- The stored fields by name. -/
def inspect (t : Ticks) : String :=
  "secs: " ++ toString t.secs.toInt ++ ", picos: " ++ toString t.picos.toNat

end Ticks
end Timekeeping
