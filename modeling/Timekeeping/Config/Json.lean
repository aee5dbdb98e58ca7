import Timekeeping.Config.Basic
import Timekeeping.Json.Reader
import Timekeeping.Json.Writer

/-!
Settings as JSON, and settings put together step by step, where a step may take
them from a JSON. Fields that are left out keep their defaults.
-/
namespace Timekeeping.Config

def fieldNames : List String :=
  ["max_repeats", "history_depth", "max_poll_interval_ms", "catch_panics"]

def toJson (c : Config) : Json :=
  .record [("max_repeats", Json.orNull (fun n => .integer n.toNat) c.maxRepeats),
    ("history_depth", .integer c.historyDepth.toNat),
    ("max_poll_interval_ms", .integer c.maxPollMillis.toNat),
    ("catch_panics", .bool c.catchPanics)]

def writeJson (c : Config) : String := c.toJson.compress

/-- A number of repeats, or `null` for no limit. -/
def repeats? : Json → Option (Option UInt32)
  | .null => some none
  | j => j.uint32?.map some

/-- A field's value, or the default when the field is left out. -/
def orDefault (read : Json → Option α) (fallback : α) : Option Json → Option α
  | none => some fallback
  | some j => read j

def ofJson? (j : Json) : Option Config := do
  match ← j.fields? fieldNames with
  | [repeats, depth, poll, catching] =>
    let standard : Config := {}
    some {
      maxRepeats := ← orDefault repeats? standard.maxRepeats repeats
      historyDepth := ← orDefault Json.uint64? standard.historyDepth depth
      maxPollMillis := ← orDefault Json.uint64? standard.maxPollMillis poll
      catchPanics := ← orDefault Json.bool? standard.catchPanics catching }
  | _ => none

/-- Reads settings without checking them. -/
def readJson? (s : String) : Option Config := do ofJson? (← Json.read? s)

/-- Reads and checks settings. -/
def ofJsonText (s : String) : Except ConfigFault Config :=
  match readJson? s with
  | none => .error .malformed
  | some c => c.check

inductive BuildStep
  | maxRepeats (limit : Option UInt32)
  | historyDepth (depth : UInt64)
  | catchPanics (catching : Bool)
  /-- The defaults with another poll interval. -/
  | poll (millis : UInt64)
  /-- The settings of a JSON text, not checked. -/
  | json (text : String)

def apply (c : Config) : BuildStep → Except ConfigFault Config
  | .maxRepeats limit => .ok { c with maxRepeats := limit }
  | .historyDepth depth => .ok { c with historyDepth := depth }
  | .catchPanics catching => .ok { c with catchPanics := catching }
  | .poll millis => .ok { maxPollMillis := millis }
  | .json text =>
    match readJson? text with
    | some c => .ok c
    | none => .error .malformed

/-- The settings after all steps; no settings are checked on the way. -/
def assemble (steps : List BuildStep) : Except ConfigFault Config := steps.foldlM apply {}

end Timekeeping.Config
