import Timekeeping.Number.Shortest
import Timekeeping.Time.Alignment
import Timekeeping.Time.Civil

/-!
When a timer should first fire, and the instant or the idle delay that this
comes to.
-/
namespace Timekeeping

inductive Timing
  | now
  | relative (delay : Duration)
  | components (secs micros picos : Int64)
  | instant (time : Instant)
  /-- A time of day, today, on the host's clocks. -/
  | clockTime (hour minute : UInt8)
  /-- The next multiple of the repeat interval. -/
  | nextMultiple
deriving DecidableEq

/-- The timing with all its fields. -/
def Timing.inspect : Timing → String
  | now => "Now"
  | relative delay => "Relative(" ++ delay.inspect ++ ")"
  | components secs micros picos =>
    "Components \x7b secs: " ++ toString secs.toInt ++ ", micros: " ++ toString micros.toInt ++
      ", picos: " ++ toString picos.toInt ++ " \x7d"
  | instant t => "At(" ++ t.inspect ++ ")"
  | clockTime hour minute =>
    "ClockTime \x7b hour: " ++ toString hour.toNat ++ ", minute: " ++ toString minute.toNat ++ " \x7d"
  | nextMultiple => "NextIntegralMultiple"

/-- Why a timing was refused. -/
inductive TimingFault
  | notFinite (seconds : Binary64)
  | needsInterval
  | clock (hour minute : UInt8) (error : Civil.ClockError)
  | notADelay (timing : Timing)
  | negativeDelay (delay : Duration)
  | unrecognized (text : String)
  | intervalNotPositive (interval : Duration)
  /-- A reason in a caller's own words. -/
  | other (reason : String)
deriving DecidableEq

def TimingFault.message : TimingFault → String
  | notFinite seconds => toString seconds ++ " is not a finite number of seconds"
  | needsInterval => "next integral multiple requires a positive repeat interval"
  | clock hour minute error =>
    let digits := toString minute.toNat
    let minute := if digits.length = 1 then "0" ++ digits else digits
    "clock time " ++ toString hour.toNat ++ ":" ++ minute ++ ": " ++ error.message
  | notADelay timing => timing.inspect ++ " cannot be used as an idle delay"
  | negativeDelay delay => "negative idle delay " ++ toString delay
  | unrecognized text => "unrecognized time `" ++ text ++ "`"
  | intervalNotPositive interval => "repeat interval must be positive, got " ++ toString interval
  | other reason => reason

/-- Why a timing has no instant. A local date outside the calendar is no fault of the
timing, and ends the caller's work. -/
inductive Unresolved
  | fault (reason : TimingFault)
  | localDateOutOfRange
deriving DecidableEq

namespace Timing

/-- A delay in seconds. -/
def ofSeconds (seconds : Binary64) : Except TimingFault Timing :=
  match Duration.ofSecondsReal? seconds with
  | some delay => .ok (relative delay)
  | none => .error (.notFinite seconds)

/-- The instant meant at `now`, where clocks are `offset` seconds ahead. The interval matters
to its multiples alone. -/
def resolve (timing : Timing) (now : Instant) (offset : Int) (interval : Option Duration) :
    Except Unresolved Instant :=
  match timing with
  | .now => .ok now
  | relative delay => .ok (now + delay)
  | components secs micros picos => .ok (now + Duration.ofComponents secs micros picos)
  | instant t => .ok t
  | clockTime hour minute =>
    match Civil.atClock now offset hour.toNat minute.toNat with
    | .ok t => .ok t
    | .error .localDateOutOfRange => .error .localDateOutOfRange
    | .error e => .error (.fault (.clock hour minute e))
  | nextMultiple =>
    match interval.bind now.nextAligned? with
    | some t => .ok t
    | none => .error (.fault .needsInterval)

/-- The delay meant, without regard to its sign. -/
def delay? : Timing → Option Duration
  | now => some .zero
  | relative delay => some delay
  | components secs micros picos => some (.ofComponents secs micros picos)
  | _ => none

/-- The delay from the start of an idle period. -/
def waitWhenIdle (timing : Timing) : Except TimingFault Duration :=
  match timing.delay? with
  | none => .error (.notADelay timing)
  | some delay => if delay.IsNegative then .error (.negativeDelay delay) else .ok delay

end Timing
end Timekeeping
