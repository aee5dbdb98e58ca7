import Timekeeping.Config.Basic
import Timekeeping.Text.Quoted
import Timekeeping.Timing.Basic

/-!
The errors of timer operations. A timer is named by its number.
-/
namespace Timekeeping

/-- What a timer lacks. -/
inductive TimerFault
  | noCallback
  | notOnClock
  | noTime
  | notAfterIdle
  | noDelay
deriving DecidableEq

def TimerFault.message : TimerFault → String
  | noCallback => "no callback set"
  | notOnClock => "idle timers are armed with arm_for_idle"
  | noTime => "no trigger time set"
  | notAfterIdle => "absolute timers are armed with arm"
  | noDelay => "no idle delay set"

inductive TimerError
  | invalidTimer (timer : Nat) (fault : TimerFault)
  | alreadyActive (timer : Nat)
  | badTiming (fault : TimingFault)
  /-- A callback failed. -/
  | callback (timer : Nat) (name : String) (message : String)
  | config (fault : ConfigFault)
deriving DecidableEq

namespace TimerError

def message : TimerError → String
  | invalidTimer timer fault => "invalid timer " ++ toString timer ++ ": " ++ fault.message
  | alreadyActive timer => "timer " ++ toString timer ++ " is already active"
  | badTiming fault => "invalid time specification: " ++ fault.message
  | callback timer name message =>
    "error running timer " ++ toString timer ++ " `" ++ name ++ "`: " ++ message
  | config fault => "config invalid: " ++ fault.message

/-- The error with all its fields. -/
def inspect : TimerError → String
  | invalidTimer timer fault =>
    "InvalidTimer \x7b id: " ++ toString timer ++ ", reason: " ++ Text.quote fault.message ++ " \x7d"
  | alreadyActive timer => "AlreadyActive(" ++ toString timer ++ ")"
  | badTiming fault => "InvalidTimeSpec(" ++ Text.quote fault.message ++ ")"
  | callback timer name message =>
    "Callback \x7b id: " ++ toString timer ++ ", callback: " ++ Text.quote name ++ ", message: " ++
      Text.quote message ++ " \x7d"
  | config fault => "Config(" ++ Text.quote fault.message ++ ")"

end TimerError
end Timekeeping
