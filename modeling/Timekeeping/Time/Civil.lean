import Timekeeping.Time.Instant

/-!
Civil dates of the Gregorian calendar, carried back before its introduction,
and the instants at a time of day. Years run from -9999 to 9999.
-/
namespace Timekeeping.Civil

def secondsPerDay : Int := 86400

/-- The first second of the year -9999. -/
def firstSecond : Int := -377705116800

/-- The last second of the year 9999. -/
def lastSecond : Int := 253402300799

def InRange (seconds : Int) : Prop := firstSecond ≤ seconds ∧ seconds ≤ lastSecond

instance (n : Int) : Decidable (InRange n) := inferInstanceAs (Decidable (_ ∧ _))

structure Date where
  year : Int
  month : Nat
  day : Nat

/-- The date that is `days` after the first of January 1970. Years are counted from March here,
so that a leap day ends its year, in cycles of 400 years. -/
def Date.ofDays (days : Int) : Date :=
  let shifted := days + 719468
  let cycle := shifted / 146097
  let dayOfCycle := (shifted % 146097).toNat
  let yearOfCycle :=
    (dayOfCycle - dayOfCycle / 1460 + dayOfCycle / 36524 - dayOfCycle / 146096) / 365
  let dayOfYear := dayOfCycle - (365 * yearOfCycle + yearOfCycle / 4 - yearOfCycle / 100)
  let fromMarch := (5 * dayOfYear + 2) / 153
  let day := dayOfYear - (153 * fromMarch + 2) / 5 + 1
  let month := if fromMarch < 10 then fromMarch + 3 else fromMarch - 9
  let year := cycle * 400 + yearOfCycle
  ⟨if month ≤ 2 then year + 1 else year, month, day⟩

structure DateTime where
  date : Date
  hour : Nat
  minute : Nat
  second : Nat
  nanosecond : Nat

/-- The date and time of an instant, to the nanosecond below. -/
def DateTime.ofInstant? (t : Instant) : Option DateTime :=
  let seconds := t.nanos / 1000000000
  if InRange seconds then
    let ofDay := (seconds % secondsPerDay).toNat
    some ⟨.ofDays (seconds / secondsPerDay), ofDay / 3600, ofDay / 60 % 60, ofDay % 60,
      (t.nanos % 1000000000).toNat⟩
  else none

/-- The instant to the nanosecond below, for one that has a date. -/
def dated? (t : Instant) : Option Instant :=
  if InRange (t.nanos / 1000000000) then some (.ofNanos t.nanos) else none

inductive ClockError
  | hourOutOfRange
  | minuteOutOfRange
  | nowOutOfRange
  /-- The local date lies outside the calendar's years. -/
  | localDateOutOfRange
deriving DecidableEq

def ClockError.message : ClockError → String
  | hourOutOfRange => "hour was not in range"
  | minuteOutOfRange => "minute was not in range"
  | nowOutOfRange => "current time out of range"
  | localDateOutOfRange => "local datetime out of valid range"

/-- The instant at `hour:minute` of the day on which `now` falls, for clocks that are `offset`
seconds ahead. -/
def atClock (now : Instant) (offset : Int) (hour minute : Nat) : Except ClockError Instant :=
  let seconds := now.nanos / 1000000000
  let onClock := seconds + offset
  if 23 < hour then .error .hourOutOfRange
  else if 59 < minute then .error .minuteOutOfRange
  else if ¬ InRange seconds then .error .nowOutOfRange
  else if ¬ InRange onClock then .error .localDateOutOfRange
  else
    let midnight := onClock / secondsPerDay * secondsPerDay
    .ok (.ofTotal ((midnight + hour * 3600 + minute * 60 - offset) * picosPerSecond))

end Timekeeping.Civil
