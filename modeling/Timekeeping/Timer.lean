import Timekeeping.Error
import Timekeeping.Timing.Json

/-!
Timers: when they fire, what they call, and the settings that may change while
they are not queued.
-/
namespace Timekeeping

/-- A callback. Its key is its identity, and any number of callbacks may share a name. -/
structure Callback where
  key : Nat
  name : Option String
deriving DecidableEq

namespace Callback

/-- The name in error messages. -/
def title (c : Callback) : String := c.name.getD "<anonymous>"

def inspect (c : Callback) : String :=
  let name := match c.name with
    | none => "None"
    | some name => "Some(" ++ Text.quote name ++ ")"
  "Callback \x7b name: " ++ name ++ ", .. \x7d"

end Callback

inductive QueueKind
  | active
  | idle
deriving DecidableEq

def QueueKind.toJson : QueueKind → Json
  | active => .text "active"
  | idle => .text "idle"

/-- When a timer fires: at an instant, or once the host has been idle for a span. -/
inductive Trigger
  | onClock (time : Instant)
  | afterIdle (delay : Duration)
deriving DecidableEq

namespace Trigger

/-- The queue for timers with this trigger. -/
def kind : Trigger → QueueKind
  | onClock _ => .active
  | afterIdle _ => .idle

def shift (delta : Duration) : Trigger → Trigger
  | onClock time => onClock (time + delta)
  | afterIdle delay => afterIdle (delay + delta)

def toJson : Trigger → Json
  | onClock time => .record [("at", time.toTicks.toJson)]
  | afterIdle delay => .record [("after_idle", delay.toTicks.toJson)]

def ofJson? : Json → Option Trigger
  | .object [(some "at", fields)] => (Ticks.ofJson? fields).map fun t => onClock ⟨t⟩
  | .object [(some "after_idle", fields)] => (Ticks.ofJson? fields).map fun t => afterIdle ⟨t⟩
  | _ => none

end Trigger

structure TimerId where
  index : Nat
deriving DecidableEq

/-- Timers are numbered from one. -/
def TimerId.number (t : TimerId) : Nat := t.index + 1

structure Timer where
  /-- Whether the timer is passed over when due timers are looked for. -/
  triggered : Bool := true
  trigger : Option Trigger := none
  /-- The repeat interval; for a timer that waits for idleness, whether it fires in every idle
  period. -/
  interval : Option Duration := none
  callback : Option Callback := none
  args : List Json := []
  /-- Whether repeats fall on multiples of the interval. -/
  aligned : Bool := false
  queued : Option QueueKind := none

namespace Timer

instance : Inhabited Timer := ⟨{}⟩

def isIdle (r : Timer) : Bool :=
  match r.trigger with
  | some (.afterIdle _) => true
  | _ => false

/-- The time left until an instant trigger, negative when it has passed. -/
def until? (r : Timer) (now : Instant) : Option Duration :=
  match r.trigger with
  | some (.onClock time) => some (time - now)
  | _ => none

/-- What may be set on a timer that is not queued. -/
inductive Setting
  | time (time : Instant) (interval : Option Duration)
  | idleTime (delay : Duration) (again : Bool)
  | function (callback : Callback) (args : List Json)
  | aligned (on : Bool)
  /-- Moves the trigger by a span. -/
  | shift (delta : Duration)

/-- The timer with a setting, whether it is queued or not. -/
def apply (r : Timer) : Setting → Except TimerFault Timer
  | .time time interval => .ok { r with trigger := some (.onClock time), interval := interval }
  | .idleTime delay again =>
    .ok { r with
      trigger := some (.afterIdle delay)
      interval := if again then some delay else none
      aligned := false }
  | .function callback args => .ok { r with callback := some callback, args := args }
  | .aligned on => .ok { r with aligned := on }
  | .shift delta =>
    match r.trigger with
    | some trigger => .ok { r with trigger := some (trigger.shift delta) }
    | none => .error .noTime

/-- Changes a setting of a timer that is not queued. -/
def adjust (r : Timer) (number : Nat) (setting : Setting) : Except TimerError Timer :=
  if r.queued.isSome then .error (.alreadyActive number)
  else match r.apply setting with
    | .ok r => .ok r
    | .error fault => .error (.invalidTimer number fault)

/-- The instant under which a timer can be armed. -/
def clockKey (r : Timer) (number : Nat) : Except TimerError Instant :=
  if r.queued.isSome then .error (.alreadyActive number)
  else if r.callback.isNone then .error (.invalidTimer number .noCallback)
  else match r.trigger with
    | some (.onClock time) => .ok time
    | some (.afterIdle _) => .error (.invalidTimer number .notOnClock)
    | none => .error (.invalidTimer number .noTime)

/-- The delay under which a timer can be armed for idle periods. -/
def idleKey (r : Timer) (number : Nat) : Except TimerError Duration :=
  if r.queued.isSome then .error (.alreadyActive number)
  else if r.callback.isNone then .error (.invalidTimer number .noCallback)
  else match r.trigger with
    | some (.afterIdle delay) => .ok delay
    | some (.onClock _) => .error (.invalidTimer number .notAfterIdle)
    | none => .error (.invalidTimer number .noDelay)

end Timer
end Timekeeping
