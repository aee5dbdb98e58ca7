import Timekeeping.Config.Basic

/-!
Settings from named variables. Variables that are not set keep their defaults,
and blanks around a value are left out.
-/
namespace Timekeeping.Config

def readNatural (bound : Nat) (cs : List Char) : Except VariableFault Nat :=
  match Number.readNatural bound cs with
  | .ok n => .ok n
  | .error e => .error (.natural e)

def readUInt64 (cs : List Char) : Except VariableFault UInt64 := do
  return UInt64.ofNat (← readNatural 18446744073709551615 cs)

/-- A number of repeats, or the word for no limit in any ASCII case. -/
def readRepeats (cs : List Char) : Except VariableFault (Option UInt32) :=
  if cs.map Char.toLower = ['n', 'o', 'n', 'e'] then .ok none
  else do return some (UInt32.ofNat (← readNatural 4294967295 cs))

def readBool (cs : List Char) : Except VariableFault Bool :=
  if cs = ['t', 'r', 'u', 'e'] then .ok true
  else if cs = ['f', 'a', 'l', 's', 'e'] then .ok false
  else .error .notABool

/-- The value of a variable, or the default when it is not set. -/
def readVariable (lookup : String → Option String) (name : String)
    (read : List Char → Except VariableFault α) (fallback : α) : Except ConfigFault α :=
  match lookup name with
  | none => .ok fallback
  | some value =>
    match read (Text.trim value.toList) with
    | .ok a => .ok a
    | .error fault => .error (.badVariable name fault)

/-- Reads and checks settings. The first variable at fault decides the error. -/
def ofVariables (lookup : String → Option String) : Except ConfigFault Config := do
  let standard : Config := {}
  let repeats ← readVariable lookup "TIMER_MAX_REPEATS" readRepeats standard.maxRepeats
  let depth ← readVariable lookup "TIMER_HISTORY_DEPTH" readUInt64 standard.historyDepth
  let poll ← readVariable lookup "TIMER_MAX_POLL_INTERVAL_MS" readUInt64 standard.maxPollMillis
  let catching ← readVariable lookup "TIMER_CATCH_PANICS" readBool standard.catchPanics
  check { maxRepeats := repeats, historyDepth := depth, maxPollMillis := poll, catchPanics := catching }

end Timekeeping.Config
