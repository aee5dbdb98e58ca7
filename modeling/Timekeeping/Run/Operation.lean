import Timekeeping.Run.Poller

/-!
The operations that callbacks and callers may perform.
-/
namespace Timekeeping

open Act

inductive Operation
  /-- Answers and changes nothing. -/
  | answer (reply : Reply)
  | create
  | name (name : String) (t : TimerId)
  | adjust (t : TimerId) (setting : Timer.Setting)
  | prepare (s : SchedulerId) (timing : Timing) (interval : Option Duration) (callback : Callback)
    (args : List Json)
  | schedule (s : SchedulerId) (timing : Timing) (interval : Option Duration) (callback : Callback)
    (args : List Json)
  | scheduleWhenIdle (s : SchedulerId) (timing : Timing) (again : Bool) (callback : Callback)
    (args : List Json)
  | arm (s : SchedulerId) (t : TimerId) (triggered : Bool)
  | armIdle (s : SchedulerId) (t : TimerId) (immediate : Bool)
  | cancel (s : SchedulerId) (t : TimerId)
  | cancelEvery (s : SchedulerId) (callback : Callback)
  | startIdle (s : SchedulerId)
  | setContext (s : SchedulerId) (name : String) (value : Json)
  | eraseContext (s : SchedulerId) (name : String)
  | changeHost (change : Host.Change)
  | setStop (value : Bool)
  | fire (s : SchedulerId) (t : TimerId)
  | drain (s : SchedulerId) (loop : LoopId)
  | poll (s : SchedulerId) (stop : Bool) (cues : List Poller.Cue)

/-- The timer that an operation is about. -/
def Operation.timer? : Operation → Option TimerId
  | name _ t => some t
  | adjust t _ => some t
  | arm _ t _ => some t
  | armIdle _ t _ => some t
  | cancel _ t => some t
  | fire _ t => some t
  | _ => none

/-- The panic of a timing whose local date lies outside the calendar. -/
def localDatePanic : Payload := .text Civil.ClockError.localDateOutOfRange.message

def refuse : World.Refusal → Act Reply
  | .error e => return .error e
  | .localDateOutOfRange => panic localDatePanic

/-- Performs an operation on timers that exist. Callbacks that it starts are run by `call`. -/
def performKnown (call : Caller) : Operation → Act Reply
  | .answer reply => return reply
  | .create => do
    let (t, w) := (← world).create {}
    record (.created t) w
    return .timer t
  | .name name t => do
    let w ← world
    record (.named name t) { w with names := w.names.set name (some t) }
    return .done
  | .adjust t setting => do
    match (← world).adjust t setting with
    | .ok w => record (.adjusted t) w; return .done
    | .error e => return .error e
  | .prepare s timing interval callback args => do
    match (← world).prepare s timing interval callback args with
    | .ok (t, w) => record (.created t) w; return .timer t
    | .error e => refuse e
  | .schedule s timing interval callback args => do
    match (← world).schedule s timing interval callback args with
    | .ok (t, w) => record (.armed s t .active false) w; return .timer t
    | .error e => refuse e
  | .scheduleWhenIdle s timing again callback args => do
    match (← world).scheduleWhenIdle s timing again callback args with
    | .ok (t, w) => record (.armed s t .idle false) w; return .timer t
    | .error e => return .error e
  | .arm s t triggered => do
    match (← world).arm s t triggered with
    | .ok w => record (.armed s t .active triggered) w; return .done
    | .error e => return .error e
  | .armIdle s t immediate => do
    match (← world).armIdle s t immediate with
    | .ok w => record (.armed s t .idle !immediate) w; return .done
    | .error e => return .error e
  | .cancel s t => do
    match (← world).cancel? s t with
    | some w => record (.cancelled s [t]) w; return .flag true
    | none => return .flag false
  | .cancelEvery s callback => do
    let w ← world
    let ts := w.matching s callback
    record (.cancelled s ts) (w.cancelAll s ts)
    return .count ts.length
  | .startIdle s => do
    record (.idleStarted s) ((← world).startIdle s)
    return .done
  | .setContext s name value => do
    let w ← world
    let S := w.scheduler s
    record (.contextChanged s) (w.setScheduler s { S with context := S.context.set name value })
    return .former (S.context.lookup name)
  | .eraseContext s name => do
    let w ← world
    let S := w.scheduler s
    record (.contextChanged s) (w.setScheduler s { S with context := S.context.erase name })
    return .former (S.context.lookup name)
  | .changeHost change => do
    let w ← world
    record (.hostChanged change) { w with host := w.host.apply change }
    return .done
  | .setStop value => do
    record (.stopSet value) { (← world) with stop := value }
    return .done
  | .fire s t => do return .outcome (← Timekeeping.fire call s t)
  | .drain s loop => do
    let report ← Timekeeping.drain call s loop
    return .pass report loop ((← world).loops.get loop)
  | .poll s stop cues => do return .poll (← Poller.run call s stop cues)

/-- Performs an operation. One about a timer that was never made does nothing. -/
def perform (call : Caller) (operation : Operation) : Act Reply := do
  let w ← world
  if operation.timer?.all w.made then performKnown call operation else return .noSuchTimer

end Timekeeping
