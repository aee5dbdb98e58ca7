import Timekeeping.Config.Json
import Timekeeping.Script.Step

/-!
Sessions: schedulers on one clock, and steps from outside that are taken one
after another.
-/
namespace Timekeeping.Script

inductive SchedulerSource
  /-- The default settings. -/
  | standard
  /-- The default settings on a host whose clocks are not ahead. -/
  | bare
  | built (steps : List Config.BuildStep)

def SchedulerSource.scheduler (offset : Int) : SchedulerSource → Except TimerError Scheduler
  | standard => .ok (.ofConfig {} offset)
  | bare => .ok (.ofConfig {} 0)
  | built steps =>
    match Config.assemble steps with
    | .ok config => Scheduler.build config offset
    | .error fault => .error (.config fault)

/-- The world at the start of a session. -/
def startWorld (now : Instant) (schedulers : List Scheduler) : World :=
  let rows := (List.range schedulers.length).zip schedulers
  { host := { now }, schedulers := ⟨rows⟩ }

/-- How deep callbacks may be nested. -/
def nestingLimit : Nat := 1000

inductive Result
  | reply (reply : Reply)
  /-- A panic left the step, with the text that it carried, as far as it is shown. -/
  | panicked (text : Option String)
  | exhausted

/-- Whether the text of a panic is shown. -/
def Verb.showsPanic : Verb → Bool
  | fire _ => true
  | drain _ => true
  | poll _ _ => true
  | _ => false

def Result.ofInterrupt (shown : Bool) : Interrupt → Result
  | .panic (.text text) => panicked (if shown then some text else none)
  | .panic _ => panicked none
  | .exhausted => exhausted

/-- Performs an operation, if there is one. -/
def performSome (roles : List Role) : Option Operation → Act Unit
  | some operation => do let _ ← execute (behaviour roles) nestingLimit operation
  | none => pure ()

/-- Takes a step and names the timer that it made. -/
def takeStep (roles : List Role) (step : Step) : Act Reply := do
  let operation := step.verb.operation roles (step.scheduler.getD 0) (← Act.world)
  let reply ← execute (behaviour roles) nestingLimit operation
  performSome roles (step.verb.naming? reply)
  return reply

/-- Takes one step from outside. What an interrupted step did stays done. -/
def Step.take (roles : List Role) (r : Run) (step : Step) : Result × Run :=
  match takeStep roles step r with
  | .ok reply r => (.reply reply, r)
  | .error e r => (.ofInterrupt step.verb.showsPanic e, r)

/-- What one step showed: its result, the world after it, and the moments on the way. -/
structure Shown where
  result : Result
  world : World
  moments : List Moment

/-- Takes the steps one after another. -/
def play (roles : List Role) : Run → List Step → List Shown
  | _, [] => []
  | r, step :: rest =>
    let (result, r') := step.take roles r
    let moments := (r'.journal.take (r'.journal.length - r.journal.length)).reverse
    ⟨result, r'.world, moments⟩ :: play roles r' rest

end Timekeeping.Script
