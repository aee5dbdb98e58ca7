import Timekeeping.Scheduler.Arming
import Timekeeping.Scheduler.Firing
import Timekeeping.Scheduler.Listing

/-!
What happens in a run, in order. Each change of the world is an event, and the
journal keeps every event with the world that it left. So the journal shows
every moment of the run, those inside running callbacks included.
-/
namespace Timekeeping

/-- What a pass over due timers reports. -/
structure PassReport where
  /-- How many callbacks ran, failed ones included. -/
  fired : Nat
  /-- The time until the next live timer is due, where one was seen. -/
  untilNext : Option Duration
deriving DecidableEq

/-- What a poller reports. -/
structure PollReport where
  fired : Nat
  /-- The millisecond at which it ended, counted from its start. -/
  stoppedAt : Nat
deriving DecidableEq

inductive FiringOutcome
  | skipped
  | ran
  | failed (error : TimerError)
deriving DecidableEq

/-- What an operation answers. -/
inductive Reply
  | done
  | timer (t : TimerId)
  | error (e : TimerError)
  | flag (value : Bool)
  | count (n : Nat)
  | outcome (o : FiringOutcome)
  | pass (report : PassReport) (loop : LoopId) (hostIdle : Bool)
  | poll (report : PollReport)
  /-- The value that a context name had before. -/
  | former (value : Option Json)
  /-- A specification's text was not JSON for one. -/
  | malformed
  /-- The operation names no timer that exists. -/
  | noSuchTimer
  /-- The time until a timer is due. -/
  | left (time : Option Duration)
  /-- A timer, and the places of its callback among those of the caller. -/
  | record (t : TimerId) (r : Timer) (places : List Nat)
  /-- A callback, and which of the caller's callbacks are the same. -/
  | callback (c : Callback) (same : List Bool)
  | listing (summaries : List TimerSummary)
  | firings (firings : List Firing)
  | context (c : Context)
  | scheduler (S : Scheduler) (host : Host)

inductive Event
  | created (t : TimerId)
  | named (name : String) (t : TimerId)
  | adjusted (t : TimerId)
  | armed (s : SchedulerId) (t : TimerId) (kind : QueueKind) (triggered : Bool)
  | cancelled (s : SchedulerId) (ts : List TimerId)
  | idleStarted (s : SchedulerId)
  | contextChanged (s : SchedulerId)
  | hostChanged (change : Host.Change)
  | stopSet (value : Bool)
  /-- A callback starts, for the `call`th time from zero. -/
  | started (s : SchedulerId) (t : TimerId) (kind : QueueKind) (callback : Callback) (call : Nat)
    (args : List Json)
  /-- A callback came back. Its timer is live `again` if it still waits in an active queue. -/
  | settled (s : SchedulerId) (t : TimerId) (again : Bool)
  /-- A timer without a callback left its queue. -/
  | emptied (s : SchedulerId) (t : TimerId)
  /-- A step of a callback answered. -/
  | stepped (callback : Nat) (call : Nat) (label : String) (reply : Reply)
  | passBegan (pass : Nat) (s : SchedulerId) (loop : LoopId) (idleFor : Option Duration)
  /-- A pass passes over entries whose timers may not fire any more. -/
  | passedOver (pass : Nat) (s : SchedulerId) (entries : List (TimerId × Trigger))
  /-- A pass is about to fire a timer that was due by `wait`. -/
  | picked (pass : Nat) (s : SchedulerId) (t : TimerId) (trigger : Trigger) (wait : Duration)
  | passEnded (pass : Nat) (s : SchedulerId) (loop : LoopId) (report : PassReport)
  | pollBegan (s : SchedulerId)
  /-- A poller ended, by itself or by a panic. -/
  | pollEnded (s : SchedulerId)

/-- An event and the world just after it. -/
structure Moment where
  event : Event
  world : World

/-- The world and all that led to it, the latest first. -/
structure Run where
  world : World
  journal : List Moment := []
  /-- How many passes have begun. -/
  passes : Nat := 0

namespace Run

def advance (r : Run) (e : Event) (w : World) : Run :=
  { r with world := w, journal := ⟨e, w⟩ :: r.journal }

end Run
end Timekeeping
