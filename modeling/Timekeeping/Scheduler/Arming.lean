import Timekeeping.World

/-!
Making timers, queueing them, and taking them out of their queues without
firing them.
-/
namespace Timekeeping.World

def adjust (w : World) (t : TimerId) (setting : Timer.Setting) : Except TimerError World := do
  return w.setTimer t (← (w.timer t).adjust t.number setting)

/-- Queues a timer at its instant. A timer that starts out triggered waits without firing. -/
def arm (w : World) (s : SchedulerId) (t : TimerId) (triggered : Bool) : Except TimerError World := do
  let time ← (w.timer t).clockKey t.number
  return w.enqueue s t (.onClock time) triggered

/-- Queues a timer for idle periods, for the one that is under way only if `immediate`. -/
def armIdle (w : World) (s : SchedulerId) (t : TimerId) (immediate : Bool) :
    Except TimerError World := do
  let delay ← (w.timer t).idleKey t.number
  return w.enqueue s t (.afterIdle delay) !immediate

/-- Why a timer was not scheduled. -/
inductive Refusal
  | error (e : TimerError)
  | localDateOutOfRange

def Refusal.ofUnresolved : Unresolved → Refusal
  | .fault reason => error (.badTiming reason)
  | .localDateOutOfRange => localDateOutOfRange

/-- A timer that is set up by a timing, not queued. -/
def prepare (w : World) (s : SchedulerId) (timing : Timing) (interval : Option Duration)
    (callback : Callback) (args : List Json) : Except Refusal (TimerId × World) :=
  match interval.filter fun i => ¬ i.IsPositive with
  | some i => .error (.error (.badTiming (.intervalNotPositive i)))
  | none =>
    match timing.resolve w.host.now (w.scheduler s).offset interval with
    | .error e => .error (.ofUnresolved e)
    | .ok time =>
      .ok (w.create {
        trigger := some (.onClock time)
        interval
        callback := some callback
        args
        aligned := decide (timing = .nextMultiple) })

/-- A timer that is set up by a timing and queued. -/
def schedule (w : World) (s : SchedulerId) (timing : Timing) (interval : Option Duration)
    (callback : Callback) (args : List Json) : Except Refusal (TimerId × World) := do
  let (t, w) ← w.prepare s timing interval callback args
  match w.arm s t false with
  | .ok w => .ok (t, w)
  | .error e => .error (.error e)

/-- A timer for idle periods, the one under way included. -/
def scheduleWhenIdle (w : World) (s : SchedulerId) (timing : Timing) (again : Bool)
    (callback : Callback) (args : List Json) : Except TimerError (TimerId × World) :=
  match timing.waitWhenIdle with
  | .error fault => .error (.badTiming fault)
  | .ok delay => do
    let (t, w) := w.create {
      trigger := some (.afterIdle delay)
      interval := if again then some delay else none
      callback := some callback
      args }
    return (t, ← w.armIdle s t true)

/-- Cancels a timer that waits in this scheduler. -/
def cancel? (w : World) (s : SchedulerId) (t : TimerId) : Option World :=
  (w.queueOf? s t).map (w.dequeue s t)

def cancel (w : World) (s : SchedulerId) (t : TimerId) : World := (w.cancel? s t).getD w

def usesCallback (w : World) (callback : Callback) (t : TimerId) : Bool :=
  match (w.timer t).callback with
  | some own => own.key = callback.key
  | none => false

/-- The timers of this scheduler with the given callback, in queue order. -/
def matching (w : World) (s : SchedulerId) (callback : Callback) : List TimerId :=
  ((w.scheduler s).active.items ++ (w.scheduler s).idle.items).filter (w.usesCallback callback)

def cancelAll (w : World) (s : SchedulerId) (ts : List TimerId) : World :=
  ts.foldl (fun w t => w.cancel s t) w

end Timekeeping.World
