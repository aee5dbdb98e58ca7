import Timekeeping.Run.Program
import Timekeeping.Timing.Reading

/-!
Scripts: what callbacks do and what is done from outside, with timers called by
name and callbacks by their place in the script.
-/
namespace Timekeeping.Script

inductive Verb
  | create (name : String)
  | also (name other : String)
  /-- Whether two names mean the same timer. -/
  | same (name other : String)
  | adjust (name : String) (setting : Timer.Setting)
  | assign (name : String) (callback : Nat) (args : List Json)
  | untilDue (name : String) (now : Option Instant)
  | describe (name : String)
  | describeCallback (callback : Nat)
  | schedule (name : Option String) (timing : TimingSource) (interval : Option Duration) (callback : Nat)
    (args : List Json) (queued : Bool)
  | scheduleWhenIdle (name : Option String) (timing : TimingSource) (again : Bool) (callback : Nat)
    (args : List Json)
  | arm (name : String) (triggered : Bool)
  | armIdle (name : String) (immediate : Bool)
  | cancel (name : String)
  | cancelEvery (callback : Nat)
  | fire (name : String)
  | drain (loop : String)
  | poll (value : Bool) (cues : List Poller.Cue)
  | startIdle
  | waits (name : String)
  | overview
  | list
  | history
  | context
  | setContext (name : String) (value : Json)
  | eraseContext (name : String)
  | changeHost (change : Host.Change)
  | stop

/-- A verb for a scheduler, by default the one at hand. -/
structure Step where
  label : String
  scheduler : Option SchedulerId := none
  /-- Whether a callback fails with the step's error. -/
  failing : Bool := false
  verb : Verb

inductive Line
  | step (step : Step)
  /-- Fails with a message, to which contexts were added from the innermost on. -/
  | fail (message : String) (contexts : List String)
  | panic (payload : Payload)

/-- A callback's lines, call by call. -/
structure Role where
  callback : Callback
  runs : List (List Line) := []
  /-- Whether the calls begin again after the last. -/
  cyclic : Bool := false

/-- How a callback of a script is made: on its own, or as a clone of an earlier one. -/
inductive RoleSource
  | own (name : Option String) (runs : List (List Line)) (cyclic : Bool)
  | clone (place : Nat)

/-- The roles of a script. A callback's key is the place at which it was first made. -/
def roles (sources : List RoleSource) : List Role :=
  sources.foldl (fun made source =>
    made ++ [match source with
      | .own name runs cyclic => ⟨⟨made.length, name⟩, runs, cyclic⟩
      | .clone place => made.getD place ⟨⟨made.length, none⟩, [], false⟩]) []

def callbackAt (roles : List Role) (place : Nat) : Callback :=
  match roles[place]? with
  | some role => role.callback
  | none => ⟨place, none⟩

/-- The operation on the timer of a name. -/
def onTimer (w : World) (name : String) (operation : TimerId → Operation) : Operation :=
  match w.names.get name with
  | some t => operation t
  | none => .answer .noSuchTimer

/-- The operation with the timing of a source. -/
def withTiming (source : TimingSource) (operation : Timing → Operation) : Operation :=
  match source.read with
  | .ok timing => operation timing
  | .error .malformed => .answer .malformed
  | .error (.fault reason) => .answer (.error (.badTiming reason))

/-- The operation that a verb means in a world. -/
def Verb.operation (roles : List Role) (s : SchedulerId) (w : World) : Verb → Operation
  | create _ => .create
  | also name other => onTimer w name fun t => .name other t
  | same name other => onTimer w name fun t => onTimer w other fun u => .answer (.flag (t = u))
  | adjust name setting => onTimer w name fun t => .adjust t setting
  | assign name callback args =>
    onTimer w name fun t => .adjust t (.function (callbackAt roles callback) args)
  | untilDue name now =>
    onTimer w name fun t => .answer (.left ((w.timer t).until? (now.getD w.host.now)))
  | describe name =>
    onTimer w name fun t =>
      let places := (List.range roles.length).filter fun i => w.usesCallback (callbackAt roles i) t
      .answer (.record t (w.timer t) places)
  | describeCallback callback =>
    let c := callbackAt roles callback
    .answer (.callback c (roles.map fun role => role.callback.key = c.key))
  | schedule _ source interval callback args queued =>
    withTiming source fun timing =>
      if queued then .schedule s timing interval (callbackAt roles callback) args
      else .prepare s timing interval (callbackAt roles callback) args
  | scheduleWhenIdle _ source again callback args =>
    withTiming source fun timing => .scheduleWhenIdle s timing again (callbackAt roles callback) args
  | arm name triggered => onTimer w name fun t => .arm s t triggered
  | armIdle name immediate => onTimer w name fun t => .armIdle s t immediate
  | cancel name => onTimer w name fun t => .cancel s t
  | cancelEvery callback => .cancelEvery s (callbackAt roles callback)
  | fire name => onTimer w name fun t => .fire s t
  | drain loop => .drain s (.named loop)
  | poll value cues => .poll s value cues
  | startIdle => .startIdle s
  | waits name => onTimer w name fun t => .answer (.flag (w.waits s t))
  | overview => .answer (.scheduler (w.scheduler s) w.host)
  | list => .answer (.listing (w.listing s))
  | history => .answer (.firings (w.scheduler s).history.firings)
  | context => .answer (.context (w.scheduler s).context)
  | setContext name value => .setContext s name value
  | eraseContext name => .eraseContext s name
  | changeHost change => .changeHost change
  | stop => .setStop true

/-- The name that the timer of a successful answer gets. -/
def Verb.newName? : Verb → Option String
  | create name => some name
  | schedule name .. => name
  | scheduleWhenIdle name .. => name
  | _ => none

/-- The naming that follows an answer. -/
def Verb.naming? (verb : Verb) : Reply → Option Operation
  | .timer t => verb.newName?.map fun name => .name name t
  | _ => none

def failureText (message : String) (contexts : List String) : String :=
  ": ".intercalate (contexts.reverse ++ [message])

/-- The program of a callback that was handed scheduler `s`. -/
def program (roles : List Role) (s : SchedulerId) : List Line → Program
  | [] => .finish .succeeded
  | .fail message contexts :: _ => .finish (.failed (failureText message contexts))
  | .panic payload :: _ => .panic payload
  | .step step :: rest =>
    .perform (some step.label)
      (fun w => step.verb.operation roles (step.scheduler.getD s) w)
      fun reply =>
        match reply, step.verb.naming? reply with
        | .error e, _ => if step.failing then .finish (.failed e.message) else program roles s rest
        | _, some naming => .perform none (fun _ => naming) fun _ => program roles s rest
        | _, none => program roles s rest

/-- The lines of a role's call. -/
def Role.lines (role : Role) (call : Nat) : List Line :=
  let n := if role.cyclic ∧ role.runs.length ≠ 0 then call % role.runs.length else call
  role.runs.getD n []

def behaviour (roles : List Role) : Behaviour := fun key call s _ =>
  match roles[key]? with
  | some role => program roles s (role.lines call)
  | none => .finish .succeeded

end Timekeeping.Script
