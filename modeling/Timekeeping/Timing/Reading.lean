import Timekeeping.Number.Decimal
import Timekeeping.Timing.Json
import Timekeeping.Timing.Words

/-!
Timings written as text: `now`, a clock time, a number of seconds or counted
units. There are other ways in which a timing may be given.
-/
namespace Timekeeping

namespace Timing

/-- The half of the day that a clock time names, and what stands before it. -/
def splitMeridiem (cs : List Char) : List Char × Option Bool :=
  match Text.dropSuffix? ['a', 'm'] cs with
  | some body => (Text.trimEnd body, some false)
  | none =>
    match Text.dropSuffix? ['p', 'm'] cs with
    | some body => (Text.trimEnd body, some true)
    | none => (cs, none)

/-- The digits of the hour and of the minute. Only a time with a half of the day may leave the
minute out. -/
def splitClock? (body : List Char) (halved : Bool) : Option (List Char × List Char) :=
  match body.dropWhile (· ≠ ':') with
  | _ :: minute => some (body.takeWhile (· ≠ ':'), minute)
  | [] => if halved then some (body, ['0', '0']) else none

/-- One or two digits. -/
def isHour (cs : List Char) : Bool := (cs.length == 1 || cs.length == 2) && cs.all Text.isDigit

def isMinute (cs : List Char) : Bool := cs.length == 2 && cs.all Text.isDigit

/-- The hour of the day, from the hour as written and the half of the day. -/
def hourOfDay? (hour : Nat) : Option Bool → Option Nat
  | none => if 23 < hour then none else some hour
  | some afternoon =>
    if hour = 0 ∨ 12 < hour then none else some (hour % 12 + if afternoon then 12 else 0)

/-- Reads `H:MM` of a day of 24 hours, or `H:MM` or `H` before `am` or `pm`. -/
def readClock? (cs : List Char) : Option (UInt8 × UInt8) := do
  let (body, meridiem) := splitMeridiem cs
  let (hour, minute) ← splitClock? body meridiem.isSome
  if isHour hour && isMinute minute then
    let minute := Text.ofDigits minute
    let hour ← hourOfDay? (Text.ofDigits hour) meridiem
    if 59 < minute then none else some (UInt8.ofNat hour, UInt8.ofNat minute)
  else none

end Timing

/-- Reads a timing, blanks around it and the case of its letters aside. -/
def Timing.read (input : String) : Except TimingFault Timing :=
  let cs := (Text.trim input.toList).map Char.toLower
  if cs = ['n', 'o', 'w'] then .ok now
  else match Timing.readClock? cs with
    | some (hour, minute) => .ok (clockTime hour minute)
    | none =>
      match Binary64.read? cs with
      | some seconds => ofSeconds seconds
      | none =>
        match Timing.readWords? cs with
        | some delay => .ok (relative delay)
        | none => .error (.unrecognized input)

/-- The ways in which a timing may be given. -/
inductive TimingSource
  | text (s : String)
  | json (s : String)
  | seconds (x : Binary64)
  | delay (d : Duration)
  | time (t : Instant)

inductive SourceError
  /-- The text is not the JSON of a timing. -/
  | malformed
  | fault (reason : TimingFault)

def SourceError.ofResult : Except TimingFault Timing → Except SourceError Timing
  | .ok timing => .ok timing
  | .error reason => .error (.fault reason)

def TimingSource.read : TimingSource → Except SourceError Timing
  | text s => SourceError.ofResult (Timing.read s)
  | json s =>
    match Timing.readJson? s with
    | some timing => .ok timing
    | none => .error .malformed
  | seconds x => SourceError.ofResult (Timing.ofSeconds x)
  | delay d => .ok (.relative d)
  | time t => .ok (.instant t)

end Timekeeping
