import Timekeeping.Text.Numerals

/-!
The settings of a scheduler.
-/
namespace Timekeeping

structure Config where
  /-- How many missed repeats are made up for one by one; without a limit, all are. -/
  maxRepeats : Option UInt32 := some 10
  /-- How many firings are remembered. -/
  historyDepth : UInt64 := 3
  /-- The longest sleep between two passes. -/
  maxPollMillis : UInt64 := 1000
  /-- Whether a panic in a callback counts as its failure. -/
  catchPanics : Bool := true
deriving DecidableEq, Inhabited

inductive VariableFault
  | natural (error : Number.NaturalError)
  | notABool
deriving DecidableEq

def VariableFault.message : VariableFault → String
  | natural error => error.message
  | notABool => "provided string was not `true` or `false`"

/-- Why a configuration was refused. -/
inductive ConfigFault
  | malformed
  | zeroPoll
  | deepHistory (depth : UInt64)
  | badVariable (name : String) (fault : VariableFault)
  /-- A reason in a caller's own words. -/
  | other (reason : String)
deriving DecidableEq

namespace Config

def depthLimit : UInt64 := 64

end Config

def ConfigFault.message : ConfigFault → String
  | malformed => "parse error"
  | zeroPoll => "max_poll_interval_ms must be greater than 0"
  | deepHistory depth =>
    "history_depth must be at most " ++ toString Config.depthLimit.toNat ++ ", got " ++
      toString depth.toNat
  | badVariable name fault => name ++ ": " ++ fault.message
  | other reason => reason

namespace Config

/-- What is wrong with the settings, if anything. -/
def fault? (c : Config) : Option ConfigFault :=
  if c.maxPollMillis = 0 then some .zeroPoll
  else if depthLimit < c.historyDepth then some (.deepHistory c.historyDepth)
  else none

def Valid (c : Config) : Prop := c.maxPollMillis ≠ 0 ∧ c.historyDepth ≤ depthLimit

instance (c : Config) : Decidable c.Valid := inferInstanceAs (Decidable (_ ∧ _))

theorem fault?_eq_none_iff (c : Config) : c.fault? = none ↔ c.Valid := by
  unfold fault? Valid
  split
  · simp_all
  · split <;> simp_all

def check (c : Config) : Except ConfigFault Config :=
  match c.fault? with
  | none => .ok c
  | some fault => .error fault

end Config
end Timekeeping
