import Timekeeping.Json.Reader
import Timekeeping.Json.Writer
import Timekeeping.Timing.Basic

/-!
Time values and timings as JSON. A timing without fields is a string; any other
is an object with one member, which names its form.
-/
namespace Timekeeping

namespace Ticks

def toJson (t : Ticks) : Json :=
  .record [("secs", .integer t.secs.toInt), ("picos", .integer t.picos.toNat)]

/-- The fields are taken as they stand. -/
def ofJson? (j : Json) : Option Ticks := do
  match ← j.allFields? ["secs", "picos"] with
  | [secs, picos] => some ⟨← secs.int64?, ← picos.uint64?⟩
  | _ => none

end Ticks

namespace Timing

def toJson : Timing → Json
  | now => .text "now"
  | relative delay => .record [("relative", delay.toTicks.toJson)]
  | components secs micros picos =>
    .record [("components", .record [("secs", .integer secs.toInt), ("micros", .integer micros.toInt),
      ("picos", .integer picos.toInt)])]
  | instant t => .record [("at", t.toTicks.toJson)]
  | clockTime hour minute =>
    .record [("clock_time", .record [("hour", .integer hour.toNat), ("minute", .integer minute.toNat)])]
  | nextMultiple => .text "next_integral_multiple"

/-- The timing of a form and its fields; a form without fields has `null`. -/
def ofForm? (form : String) (fields : Json) : Option Timing :=
  if form = "now" then
    match fields with
    | .null => some now
    | _ => none
  else if form = "next_integral_multiple" then
    match fields with
    | .null => some nextMultiple
    | _ => none
  else if form = "relative" then (Ticks.ofJson? fields).map fun t => relative ⟨t⟩
  else if form = "at" then (Ticks.ofJson? fields).map fun t => instant ⟨t⟩
  else if form = "components" then do
    match ← fields.allFields? ["secs", "micros", "picos"] with
    | [secs, micros, picos] => some (components (← secs.int64?) (← micros.int64?) (← picos.int64?))
    | _ => none
  else if form = "clock_time" then do
    match ← fields.allFields? ["hour", "minute"] with
    | [hour, minute] => some (clockTime (← hour.uint8?) (← minute.uint8?))
    | _ => none
  else none

def ofJson? : Json → Option Timing
  | .string (some form) =>
    -- A form with fields cannot stand alone.
    ofForm? form .null
  | .object [(some form, fields)] => ofForm? form fields
  | _ => none

def readJson? (s : String) : Option Timing := do ofJson? (← Json.read? s)

def writeJson (timing : Timing) : String := timing.toJson.compress

end Timing
end Timekeeping
